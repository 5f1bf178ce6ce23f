import Mathlib.Data.List.Induction
import StockManager.Library.Tally

/-! # Insertion-ordered dictionaries

A dictionary is the list of its items, oldest key first. `upsert` is
`d[k] = f(d.get(k, init))`; counting (`totals`) and grouping (`gather`) are
folds of it. -/

namespace Dict

variable {α κ ν : Type} [DecidableEq κ]

def find (k : κ) : List (κ × ν) → Option ν
  | [] => none
  | (k', v) :: rest => if k' = k then some v else find k rest

def keys (d : List (κ × ν)) : List κ := d.map Prod.fst

def upsert (k : κ) (init : ν) (f : ν → ν) : List (κ × ν) → List (κ × ν)
  | [] => [(k, f init)]
  | (k', v) :: rest => if k' = k then (k', f v) :: rest else (k', v) :: upsert k init f rest

/-- `d[k] = v` -/
def put (k : κ) (v : ν) (d : List (κ × ν)) : List (κ × ν) := upsert k v (fun _ => v) d

theorem find_upsert_self (k : κ) (init : ν) (f : ν → ν) (d : List (κ × ν)) :
    find k (upsert k init f d) = some (f ((find k d).getD init)) := by
  induction d with
  | nil => simp [upsert, find]
  | cons item rest ih =>
    obtain ⟨k', v⟩ := item
    by_cases h : k' = k
    · simp [upsert, find, h]
    · simp [upsert, find, h, ih]

theorem find_upsert_of_ne {k j : κ} (hne : j ≠ k) (init : ν) (f : ν → ν) (d : List (κ × ν)) :
    find k (upsert j init f d) = find k d := by
  induction d with
  | nil => simp [upsert, find, hne]
  | cons item rest ih =>
    obtain ⟨k', v⟩ := item
    by_cases h : k' = j
    · have hk : k' ≠ k := fun heq => hne (h.symm.trans heq)
      simp [upsert, find, h, hne]
    · by_cases hk : k' = k
      · simp [upsert, find, hk, hne.symm]
      · simp [upsert, find, h, hk, ih]

theorem mem_keys_upsert {k j : κ} {init : ν} {f : ν → ν} {d : List (κ × ν)} :
    k ∈ keys (upsert j init f d) ↔ k = j ∨ k ∈ keys d := by
  induction d with
  | nil => simp [upsert, keys]
  | cons item rest ih =>
    obtain ⟨k', v⟩ := item
    simp only [keys] at ih
    by_cases h : k' = j
    · simp [upsert, keys, h]
    · simp only [upsert, keys, h, if_false, List.map_cons, List.mem_cons, ih]
      tauto

theorem put_of_not_mem {k : κ} {d : List (κ × ν)} (h : k ∉ keys d) (v : ν) :
    put k v d = d ++ [(k, v)] := by
  unfold put
  induction d with
  | nil => rfl
  | cons item rest ih =>
    obtain ⟨k', v'⟩ := item
    simp only [keys, List.map_cons, List.mem_cons, not_or] at h
    rw [upsert, if_neg (Ne.symm h.1), ih h.2]
    rfl

theorem foldl_put_of_nodup {ι : Type} (key : ι → κ) (value : ι → ν) {rows : List ι}
    (h : (rows.map key).Nodup) :
    rows.foldl (fun d row => put (key row) (value row) d) [] =
      rows.map fun row => (key row, value row) := by
  induction rows using List.reverseRecOn with
  | nil => rfl
  | append_singleton rows row ih =>
    rw [List.map_append, List.nodup_append] at h
    rw [List.foldl_append, ih h.1, List.map_append]
    have hnot : key row ∉ keys (rows.map fun row => (key row, value row)) := by
      intro hmem
      have hold : key row ∈ rows.map key := by simpa [keys, Function.comp_def] using hmem
      exact h.2.2 _ hold (key row) (by simp) rfl
    exact put_of_not_mem hnot (value row)

theorem nodup_keys_upsert {j : κ} {init : ν} {f : ν → ν} {d : List (κ × ν)}
    (h : (keys d).Nodup) : (keys (upsert j init f d)).Nodup := by
  induction d with
  | nil => simp [upsert, keys]
  | cons item rest ih =>
    obtain ⟨k', v⟩ := item
    have hcons : k' ∉ keys rest ∧ (keys rest).Nodup := List.nodup_cons.mp h
    by_cases hk : k' = j
    · simpa [upsert, keys, hk] using h
    · have hnot : k' ∉ keys (upsert j init f rest) := by
        rw [mem_keys_upsert]
        exact not_or.mpr ⟨hk, hcons.1⟩
      have hnew : (keys ((k', v) :: upsert j init f rest)).Nodup :=
        List.nodup_cons.mpr ⟨hnot, ih hcons.2⟩
      simpa [upsert, hk] using hnew

theorem mem_iff_find {k : κ} {v : ν} {d : List (κ × ν)} (h : (keys d).Nodup) :
    (k, v) ∈ d ↔ find k d = some v := by
  induction d with
  | nil => simp [find]
  | cons item rest ih =>
    obtain ⟨k', v'⟩ := item
    have hcons : k' ∉ keys rest ∧ (keys rest).Nodup := List.nodup_cons.mp h
    by_cases hk : k' = k
    · have hnot : (k, v) ∉ rest := fun hmem =>
        hcons.1 (hk ▸ List.mem_map.mpr ⟨(k, v), hmem, rfl⟩)
      simp [find, hk, hnot, eq_comm]
    · simp [find, hk, ih hcons.2, Ne.symm hk]

theorem find_eq_none {k : κ} {d : List (κ × ν)} : find k d = none ↔ k ∉ keys d := by
  induction d with
  | nil => simp [find, keys]
  | cons item rest ih =>
    obtain ⟨k', v⟩ := item
    simp only [keys] at ih
    by_cases hk : k' = k
    · simp [find, keys, hk]
    · simp [find, keys, hk, ih, Ne.symm hk]

theorem mem_of_find {k : κ} {v : ν} {d : List (κ × ν)} (h : find k d = some v) : (k, v) ∈ d := by
  induction d with
  | nil => simp [find] at h
  | cons item rest ih =>
    obtain ⟨k', v'⟩ := item
    by_cases hk : k' = k
    · simp only [find, hk, if_true, Option.some.injEq] at h
      simp [hk, h]
    · simp only [find, hk, if_false] at h
      exact List.mem_cons_of_mem _ (ih h)

theorem find_append {k : κ} {a b : List (κ × ν)} :
    find k (a ++ b) = (find k a).or (find k b) := by
  induction a with
  | nil => rfl
  | cons item rest ih =>
    by_cases hk : item.1 = k
    · simp [find, hk]
    · simp [find, hk, ih]

theorem find_perm {k : κ} {a b : List (κ × ν)} (hperm : a.Perm b) (h : (keys b).Nodup) :
    find k a = find k b := by
  have ha : (keys a).Nodup := ((hperm.map Prod.fst).nodup_iff).mpr h
  apply Option.ext
  intro v
  rw [← mem_iff_find ha, ← mem_iff_find h]
  exact hperm.mem_iff

theorem find_filter {k : κ} {d : List (κ × ν)} (p : ν → Prop) [DecidablePred p]
    (h : (keys d).Nodup) : find k (d.filter fun item => p item.2) = (find k d).filter (p ·) := by
  have hsub : (keys (d.filter fun item => p item.2)).Nodup :=
    h.sublist (List.filter_sublist.map Prod.fst)
  apply Option.ext
  intro v
  rw [← mem_iff_find hsub, List.mem_filter, mem_iff_find h, Option.filter_eq_some_iff]

theorem mem_put {k : κ} {v : ν} {d : List (κ × ν)} {item : κ × ν} (h : item ∈ put k v d) :
    item = (k, v) ∨ item ∈ d := by
  induction d with
  | nil => exact .inl (List.mem_singleton.mp h)
  | cons first d ih =>
    rw [put, upsert] at h
    split at h
    next hk =>
      rcases List.mem_cons.mp h with rfl | hrest
      · exact .inl (by rw [hk])
      · exact .inr (List.mem_cons_of_mem _ hrest)
    next =>
      rcases List.mem_cons.mp h with rfl | hrest
      · exact .inr List.mem_cons_self
      · exact (ih hrest).imp id (List.mem_cons_of_mem _)

theorem find_map_key (key : α → κ) (value : α → ν) (rows : List α) (k : κ) :
    find k (rows.map fun row => (key row, value row)) =
      (rows.find? fun row => key row = k).map value := by
  induction rows with
  | nil => rfl
  | cons row rows ih =>
    rw [List.map_cons, find, List.find?_cons]
    split
    next h => rw [decide_eq_true h, Option.map_some]
    next h => rw [decide_eq_false h, ih]

theorem find_map_values {μ : Type} (f : κ → ν → μ) (d : List (κ × ν)) (k : κ) :
    find k (d.map fun item => (item.1, f item.1 item.2)) = (find k d).map (f k) := by
  induction d with
  | nil => rfl
  | cons item d ih =>
    by_cases hk : item.1 = k
    · simp [find, hk]
    · simp [find, hk, ih]

theorem put_map_values {μ : Type} (f : ν → μ) (k : κ) (v : ν) (d : List (κ × ν)) :
    put k (f v) (d.map fun item => (item.1, f item.2)) =
      (put k v d).map fun item => (item.1, f item.2) := by
  induction d with
  | nil => rfl
  | cons item d ih =>
    rw [put] at ih ⊢
    rw [put, List.map_cons, upsert, upsert]
    split
    next => rfl
    next => rw [ih, List.map_cons, put]

/-- `d.pop(k, None)` -/
def erase (k : κ) (d : List (κ × ν)) : List (κ × ν) := d.filter fun item => item.1 ≠ k

theorem find_erase_self (k : κ) (d : List (κ × ν)) : find k (erase k d) = none := by
  rw [find_eq_none]
  simp [keys, erase]

theorem find_erase_of_ne {k j : κ} (hne : j ≠ k) (d : List (κ × ν)) :
    find k (erase j d) = find k d := by
  induction d with
  | nil => rfl
  | cons item rest ih =>
    simp only [erase] at ih
    by_cases h : item.1 = j
    · have hk : item.1 ≠ k := fun heq => hne (h.symm.trans heq)
      simpa [erase, find, h, hne] using ih
    · by_cases hk : item.1 = k
      · have hkj : k ≠ j := hne.symm
        simp [erase, find, hk, hkj]
      · simpa [erase, find, h, hk] using ih

def collect (key : α → κ) (init : ν) (step : α → ν → ν) (d : List (κ × ν)) (rows : List α) :
    List (κ × ν) :=
  rows.foldl (fun d r => upsert (key r) init (step r) d) d

theorem getD_find_collect (key : α → κ) (init : ν) (step : α → ν → ν) (d : List (κ × ν))
    (rows : List α) (k : κ) :
    (find k (collect key init step d rows)).getD init =
      (rows.filter fun r => key r = k).foldl (fun v r => step r v) ((find k d).getD init) := by
  induction rows generalizing d with
  | nil => rfl
  | cons r rows ih =>
    have hfold : collect key init step d (r :: rows) =
        collect key init step (upsert (key r) init (step r) d) rows := rfl
    rw [hfold, ih]
    by_cases h : key r = k
    · rw [← h, find_upsert_self]
      simp
    · rw [find_upsert_of_ne h]
      simp [h]

theorem mem_keys_collect {key : α → κ} {init : ν} {step : α → ν → ν} {d : List (κ × ν)}
    {rows : List α} {k : κ} :
    k ∈ keys (collect key init step d rows) ↔ k ∈ keys d ∨ ∃ r ∈ rows, key r = k := by
  induction rows generalizing d with
  | nil => simp [collect]
  | cons r rows ih =>
    have hfold : collect key init step d (r :: rows) =
        collect key init step (upsert (key r) init (step r) d) rows := rfl
    rw [hfold, ih, mem_keys_upsert]
    simp only [List.mem_cons, exists_eq_or_imp, eq_comm (a := k)]
    tauto

theorem nodup_keys_collect {key : α → κ} {init : ν} {step : α → ν → ν} {d : List (κ × ν)}
    (h : (keys d).Nodup) (rows : List α) : (keys (collect key init step d rows)).Nodup := by
  induction rows generalizing d with
  | nil => exact h
  | cons r rows ih => exact ih (nodup_keys_upsert h)

theorem filter_key {k : κ} {d : List (κ × ν)} (h : (keys d).Nodup) :
    d.filter (fun item => item.1 = k) = ((find k d).map fun v => (k, v)).toList := by
  induction d with
  | nil => rfl
  | cons item rest ih =>
    obtain ⟨k', v⟩ := item
    have hcons : k' ∉ keys rest ∧ (keys rest).Nodup := List.nodup_cons.mp h
    by_cases hk : k' = k
    · subst hk
      have hnone : rest.filter (fun item => item.1 = k') = [] := by
        rw [ih hcons.2, find_eq_none.mpr hcons.1]
        rfl
      simp [find, hnone]
    · simp [find, hk, ih hcons.2]

theorem find_foldl_put {items : List (κ × ν)} {d : List (κ × ν)} {k : κ} :
    find k (items.foldl (fun d item => put item.1 item.2 d) d) =
      (find k items.reverse).or (find k d) := by
  induction items generalizing d with
  | nil => rfl
  | cons item items ih =>
    rw [List.foldl_cons, ih, List.reverse_cons, find_append]
    by_cases h : item.1 = k
    · rw [← h, put, find_upsert_self]
      simp [find]
    · rw [put, find_upsert_of_ne h]
      simp [find, h]

theorem nodup_keys_foldl_put {items d : List (κ × ν)} (h : (keys d).Nodup) :
    (keys (items.foldl (fun d item => put item.1 item.2 d) d)).Nodup := by
  induction items generalizing d with
  | nil => exact h
  | cons item items ih => exact ih (nodup_keys_upsert h)

theorem find_foldl_put_flatMap {groups : List κ} (g : κ → List ν) (hnodup : groups.Nodup)
    {d : List (κ × ν)} {k : κ} :
    find k ((groups.flatMap fun j => (g j).map fun v => (j, v)).foldl
        (fun d item => put item.1 item.2 d) d) =
      (if k ∈ groups then (g k).getLast? else none).or (find k d) := by
  have hgroup : ∀ (j : κ) (vs : List ν) (e : List (κ × ν)),
      find k ((vs.map fun v => (j, v)).foldl (fun d item => put item.1 item.2 d) e) =
        (if j = k then vs.getLast? else none).or (find k e) := by
    intro j vs
    induction vs using List.reverseRecOn with
    | nil => intro e; simp
    | append_singleton vs v ih =>
      intro e
      rw [List.map_append, List.foldl_append]
      by_cases hj : j = k
      · subst hj
        simp [put, find_upsert_self]
      · have hprev := ih e
        rw [if_neg hj] at hprev
        rw [if_neg hj, ← hprev]
        exact find_upsert_of_ne hj ..
  induction groups generalizing d with
  | nil => simp
  | cons j groups ih =>
    have hcons := List.nodup_cons.mp hnodup
    rw [List.flatMap_cons, List.foldl_append, ih hcons.2, hgroup]
    by_cases hj : j = k
    · subst hj
      simp [hcons.1]
    · simp [hj, Ne.symm hj]

theorem foldl_erase {ι : Type} (key : ι → κ) (items : List ι) (d : List (κ × ν)) :
    items.foldl (fun d item => erase (key item) d) d =
      d.filter fun item => item.1 ∉ items.map key := by
  induction items generalizing d with
  | nil => simp
  | cons item items ih =>
    rw [List.foldl_cons, ih, erase, List.filter_filter]
    apply List.filter_congr
    intro x _
    simp only [List.map_cons, List.mem_cons, not_or, ← Bool.decide_and, decide_eq_decide, ne_eq]
    tauto

theorem find_foldl_put_map {μ : Type} (f : μ → ν) {items : List (κ × μ)} {d : List (κ × ν)} {k : κ}
    (h : (keys items).Nodup) :
    find k (items.foldl (fun d item => put item.1 (f item.2) d) d) =
      ((find k items).map f).or (find k d) := by
  have hmap : items.foldl (fun d item => put item.1 (f item.2) d) d =
      (items.map fun item => (item.1, f item.2)).foldl (fun d item => put item.1 item.2 d) d := by
    rw [List.foldl_map]
  have hkeys : keys (items.map fun item => (item.1, f item.2)) = keys items := by
    simp [keys, Function.comp_def]
  have hfind : find k (items.map fun item => (item.1, f item.2)) = (find k items).map f := by
    clear h hmap hkeys
    induction items with
    | nil => rfl
    | cons item items ih =>
      by_cases hk : item.1 = k
      · simp [find, hk]
      · simp [find, hk, ih]
  rw [hmap, find_foldl_put, find_perm (List.reverse_perm _) (by rw [hkeys]; exact h), hfind]

section Totals

variable [AddCommMonoid ν]

/-- `SELECT key, sum(amount) … GROUP BY key`, and the loop
`d[key(r)] = d.get(key(r), 0) + amount(r)`. -/
def totals (key : α → κ) (amount : α → ν) (rows : List α) : List (κ × ν) :=
  collect key 0 (fun r v => v + amount r) [] rows

theorem getD_find_totals (key : α → κ) (amount : α → ν) (rows : List α) (k : κ) :
    (find k (totals key amount rows)).getD 0 = tally (fun r => key r = k) amount rows := by
  have hsum : ∀ (l : List α) (z : ν),
      l.foldl (fun v r => v + amount r) z = z + (l.map amount).sum := by
    intro l
    induction l with
    | nil => intro z; simp
    | cons r l ih => intro z; simp [ih, add_assoc]
  rw [totals, getD_find_collect, hsum]
  simp [find, tally]

theorem mem_keys_totals {key : α → κ} {amount : α → ν} {rows : List α} {k : κ} :
    k ∈ keys (totals key amount rows) ↔ ∃ r ∈ rows, key r = k := by
  rw [totals, mem_keys_collect]
  simp [keys]

theorem mem_totals {key : α → κ} {amount : α → ν} {rows : List α} {k : κ} {v : ν} :
    (k, v) ∈ totals key amount rows ↔
      (∃ r ∈ rows, key r = k) ∧ v = tally (fun r => key r = k) amount rows := by
  have hnodup : (keys (totals key amount rows)).Nodup := nodup_keys_collect (by simp [keys]) rows
  have hkeys : k ∈ keys (totals key amount rows) ↔ ∃ r ∈ rows, key r = k := mem_keys_totals
  rw [mem_iff_find hnodup, ← hkeys, ← getD_find_totals]
  cases hfind : find k (totals key amount rows) with
  | none =>
    have hnot := find_eq_none.mp hfind
    simp [hnot]
  | some w =>
    have hmem : k ∈ keys (totals key amount rows) := by
      by_contra hnot
      rw [find_eq_none.mpr hnot] at hfind
      exact absurd hfind (by simp)
    simp [hmem, eq_comm]

theorem tally_upsert (p : κ → Prop) [DecidablePred p] (k : κ) (a : ν) (d : List (κ × ν)) :
    tally (fun item => p item.1) Prod.snd (upsert k 0 (fun v => v + a) d) =
      tally (fun item => p item.1) Prod.snd d + if p k then a else 0 := by
  induction d with
  | nil => simp [upsert, Tally.tally_singleton]
  | cons item d ih =>
    obtain ⟨k', v⟩ := item
    unfold upsert
    split
    next hk =>
      subst hk
      rw [Tally.tally_cons, Tally.tally_cons, add_right_comm]
      congr 1
      split <;> simp
    next => rw [Tally.tally_cons, Tally.tally_cons, ih, add_assoc]

theorem tally_totals (key : α → κ) (amount : α → ν) (rows : List α) (p : κ → Prop)
    [DecidablePred p] :
    tally (fun item => p item.1) Prod.snd (totals key amount rows) =
      tally (fun r => p (key r)) amount rows := by
  have hfold : ∀ d : List (κ × ν),
      tally (fun item => p item.1) Prod.snd (collect key 0 (fun r v => v + amount r) d rows) =
        tally (fun item => p item.1) Prod.snd d + tally (fun r => p (key r)) amount rows := by
    induction rows with
    | nil => exact fun d => (add_zero _).symm
    | cons r rows ih =>
      intro d
      rw [Tally.tally_cons, ← add_assoc, ← tally_upsert]
      exact ih _
  rw [totals, hfold, Tally.tally_nil, zero_add]

end Totals

/-- `d.setdefault(key(r), []).append(value(r))` -/
def gather (key : α → κ) (value : α → ν) (rows : List α) : List (κ × List ν) :=
  collect key [] (fun r vs => vs ++ [value r]) [] rows

theorem getD_find_gather (key : α → κ) (value : α → ν) (rows : List α) (k : κ) :
    (find k (gather key value rows)).getD [] = (rows.filter fun r => key r = k).map value := by
  have happend : ∀ (l : List α) (z : List ν),
      l.foldl (fun vs r => vs ++ [value r]) z = z ++ l.map value := by
    intro l
    induction l with
    | nil => intro z; simp
    | cons r l ih => intro z; simp [ih]
  rw [gather, getD_find_collect, happend]
  simp [find]

def pairs (d : List (κ × List ν)) : List (κ × ν) :=
  d.flatMap fun item => item.2.map fun v => (item.1, v)

theorem pairs_upsert_append (k : κ) (v : ν) (d : List (κ × List ν)) :
    (pairs (upsert k [] (fun vs => vs ++ [v]) d)).Perm ((k, v) :: pairs d) := by
  induction d with
  | nil => exact .refl _
  | cons item d ih =>
    obtain ⟨k', vs⟩ := item
    by_cases h : k' = k
    · subst h
      have hlast : ((vs ++ [v]).map fun w => (k', w)).Perm ((k', v) :: vs.map fun w => (k', w)) := by
        rw [List.map_append]
        exact List.perm_append_singleton _ _
      simp only [pairs, upsert, if_true, List.flatMap_cons]
      exact hlast.append_right _
    · simp only [pairs, upsert, if_neg h, List.flatMap_cons]
      exact (ih.append_left _).trans List.perm_middle

theorem pairs_gather (key : α → κ) (value : α → ν) (rows : List α) :
    (pairs (gather key value rows)).Perm (rows.map fun r => (key r, value r)) := by
  have hfold : ∀ d : List (κ × List ν),
      (pairs (collect key [] (fun r vs => vs ++ [value r]) d rows)).Perm
        (pairs d ++ rows.map fun r => (key r, value r)) := by
    induction rows with
    | nil => simp [collect]
    | cons r rows ih =>
      intro d
      have hhead := (pairs_upsert_append (key r) (value r) d).append_right
        (rows.map fun r => (key r, value r))
      exact (ih _).trans (hhead.trans List.perm_middle.symm)
  simpa [gather, pairs] using hfold []

theorem find_foldl_put_key {ι : Type} (key : ι → κ) (g : κ → ν) (rows : List ι) (k : κ) :
    find k (rows.foldl (fun d r => put (key r) (g (key r)) d) []) =
      if k ∈ rows.map key then some (g k) else none := by
  induction rows using List.reverseRecOn with
  | nil => rfl
  | append_singleton rows r ih =>
    rw [List.foldl_append, List.foldl_cons, List.foldl_nil, put]
    by_cases h : key r = k
    · subst h
      rw [find_upsert_self, if_pos (by simp)]
    · have hmem : k ∈ (rows ++ [r]).map key ↔ k ∈ rows.map key := by
        simp [Ne.symm h]
      rw [find_upsert_of_ne h, ih]
      simp only [hmem]

theorem find_upserts_key {ι : Type} (name : ι → ν) (key : ν → κ) (rows : List ι) {k : κ} {v : ν}
    (h : find k (rows.foldl (fun d r => upsert (key (name r)) (name r) id d) []) = some v) :
    ∃ r ∈ rows, key (name r) = k := by
  induction rows using List.reverseRecOn with
  | nil => cases h
  | append_singleton rows r ih =>
    rw [List.foldl_append, List.foldl_cons, List.foldl_nil] at h
    by_cases hk : key (name r) = k
    · exact ⟨r, by simp, hk⟩
    · rw [find_upsert_of_ne hk] at h
      obtain ⟨x, hx, hkey⟩ := ih h
      exact ⟨x, List.mem_append_left _ hx, hkey⟩

theorem find_firstName {ι : Type} (name : ι → ν) (key : ν → κ) (rows : List ι) {k : κ}
    (h : ∃ r ∈ rows, key (name r) = k) :
    ∃ v, find k (rows.foldl (fun d r => upsert (key (name r)) (name r) id d) []) = some v ∧
      key v = k := by
  induction rows using List.reverseRecOn with
  | nil =>
    obtain ⟨r, hr, _⟩ := h
    cases hr
  | append_singleton rows r ih =>
    rw [List.foldl_append, List.foldl_cons, List.foldl_nil]
    by_cases hk : key (name r) = k
    · rw [← hk, find_upsert_self]
      cases hold : find (key (name r))
          (rows.foldl (fun d r => upsert (key (name r)) (name r) id d) []) with
      | none => exact ⟨name r, rfl, rfl⟩
      | some old =>
        refine ⟨old, rfl, ?_⟩
        by_cases hin : ∃ x ∈ rows, key (name x) = k
        · obtain ⟨v, hv, hkey⟩ := ih hin
          rw [hk, hv] at hold
          rw [hk, ← Option.some.inj hold, hkey]
        · exact absurd (find_upserts_key name key rows hold) (hk ▸ hin)
    · rw [find_upsert_of_ne hk]
      apply ih
      obtain ⟨x, hx, hkey⟩ := h
      rcases List.mem_append.mp hx with hx | hx
      · exact ⟨x, hx, hkey⟩
      · exact absurd (List.mem_singleton.mp hx ▸ hkey) hk

end Dict
