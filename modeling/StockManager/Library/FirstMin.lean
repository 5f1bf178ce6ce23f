import Mathlib.Data.List.MinMax
import Mathlib.Data.List.Nodup
import StockManager.Library.Dict

/-! # The first of the least

`min(rows, key=f)` is `List.argmin f rows`: of the rows with the least key, the
first. Which row that is depends on the order of the rows, its key does not.
`bestBy` keeps the first least row of every group. -/

namespace FirstMin

variable {α β κ ω : Type} [LinearOrder ω] [DecidableEq κ]

theorem exists_argmin {f : α → ω} {l : List α} (h : l ≠ []) : ∃ a, l.argmin f = some a := by
  rw [← Option.isSome_iff_exists, Option.isSome_iff_ne_none]
  intro hnone
  exact h (List.argmin_eq_none.mp hnone)

theorem argmin_spec {f : α → ω} {l : List α} {a : α} (h : l.argmin f = some a) :
    a ∈ l ∧ ∀ b ∈ l, f a ≤ f b :=
  ⟨List.argmin_mem h, fun _ hb => List.le_of_mem_argmin hb h⟩

theorem argmin_congr {f g : α → ω} {l : List α} (h : ∀ a ∈ l, f a = g a) :
    l.argmin f = l.argmin g := by
  induction l using List.reverseRecOn with
  | nil => rfl
  | append_singleton l a ih =>
    have hl := ih fun b hb => h b (List.mem_append_left _ hb)
    rw [List.argmin_concat, List.argmin_concat, hl]
    cases hmin : l.argmin g with
    | none => rfl
    | some c =>
      have hc := h c (List.mem_append_left _ (argmin_spec hmin).1)
      have ha := h a (by simp)
      simp only [hc, ha]

theorem map_argmin_perm {f : α → ω} {g : β → ω} {l : List α} {m : List β}
    (h : (l.map f).Perm (m.map g)) : (l.argmin f).map f = (m.argmin g).map g := by
  cases hl : l.argmin f with
  | none =>
    have hnil := List.argmin_eq_none.mp hl
    subst hnil
    have hm : m = [] := by
      have hlen := h.length_eq
      simpa [eq_comm] using hlen
    subst hm
    rfl
  | some a =>
    obtain ⟨ha, hmin⟩ := argmin_spec hl
    have hne : m ≠ [] := by
      rintro rfl
      have hlen := h.length_eq
      rw [List.length_map, List.map_nil, List.length_nil, List.length_eq_zero_iff] at hlen
      rw [hlen] at ha
      cases ha
    obtain ⟨b, hb⟩ := exists_argmin (f := g) hne
    obtain ⟨hbm, hbmin⟩ := argmin_spec hb
    rw [hb, Option.map_some, Option.map_some, Option.some.injEq]
    apply le_antisymm
    · obtain ⟨a', ha', heq⟩ := List.mem_map.mp (h.mem_iff.mpr (List.mem_map_of_mem hbm))
      rw [← heq]
      exact hmin a' ha'
    · obtain ⟨b', hb', heq⟩ := List.mem_map.mp (h.mem_iff.mp (List.mem_map_of_mem ha))
      rw [← heq]
      exact hbmin b' hb'

variable (group : α → κ) (key : α → ω)

/-- `current = best.get(k); if current is None or key(row) < key(current): best[k] = row` -/
def improve (best : List (κ × α)) (row : α) : List (κ × α) :=
  match Dict.find (group row) best with
  | none => Dict.put (group row) row best
  | some current => if key row < key current then Dict.put (group row) row best else best

def bestBy (rows : List α) : List (κ × α) := rows.foldl (improve group key) []

theorem bestBy_concat (rows : List α) (row : α) :
    bestBy group key (rows ++ [row]) = improve group key (bestBy group key rows) row := by
  rw [bestBy, List.foldl_append]
  rfl

theorem find_bestBy (rows : List α) (k : κ) :
    Dict.find k (bestBy group key rows) = (rows.filter fun r => group r = k).argmin key := by
  induction rows using List.reverseRecOn with
  | nil => rfl
  | append_singleton rows row ih =>
    rw [bestBy_concat, List.filter_append]
    unfold improve
    by_cases hk : group row = k
    · subst hk
      rw [ih]
      have hone : [row].filter (fun r => group r = group row) = [row] := by simp
      rw [hone, List.argmin_concat]
      cases hmin : (rows.filter fun r => group r = group row).argmin key with
      | none => simp [Dict.put, Dict.find_upsert_self]
      | some current =>
        by_cases hlt : key row < key current
        · simp [hlt, Dict.put, Dict.find_upsert_self]
        · simp [hlt, ih, hmin]
    · have hnone : [row].filter (fun r => group r = k) = [] := by simp [hk]
      rw [hnone, List.append_nil, ← ih]
      cases Dict.find (group row) (bestBy group key rows) with
      | none => exact Dict.find_upsert_of_ne hk ..
      | some current =>
        dsimp only
        split
        next => exact Dict.find_upsert_of_ne hk ..
        next => rfl

theorem nodup_keys_bestBy (rows : List α) : (Dict.keys (bestBy group key rows)).Nodup := by
  induction rows using List.reverseRecOn with
  | nil => exact List.nodup_nil
  | append_singleton rows row ih =>
    rw [bestBy_concat]
    unfold improve
    split
    next => exact Dict.nodup_keys_upsert ih
    next =>
      split
      next => exact Dict.nodup_keys_upsert ih
      next => exact ih

theorem mem_bestBy {rows : List α} {k : κ} {row : α} :
    (k, row) ∈ bestBy group key rows ↔
      (rows.filter fun r => group r = k).argmin key = some row := by
  rw [Dict.mem_iff_find (nodup_keys_bestBy group key rows), find_bestBy]

theorem mem_keys_bestBy {rows : List α} {k : κ} :
    k ∈ Dict.keys (bestBy group key rows) ↔ ∃ r ∈ rows, group r = k := by
  constructor
  · intro hk
    obtain ⟨item, hitem, rfl⟩ := List.mem_map.mp hk
    have hbest := (mem_bestBy group key).mp hitem
    obtain ⟨hmem, hgroup⟩ := List.mem_filter.mp (argmin_spec hbest).1
    exact ⟨item.2, hmem, by simpa using hgroup⟩
  · rintro ⟨r, hr, rfl⟩
    have hne : (rows.filter fun x => group x = group r) ≠ [] := by
      intro hnil
      have hmem : r ∈ rows.filter fun x => group x = group r := List.mem_filter.mpr ⟨hr, by simp⟩
      rw [hnil] at hmem
      cases hmem
    obtain ⟨a, ha⟩ := exists_argmin (f := key) hne
    exact List.mem_map.mpr ⟨(group r, a), (mem_bestBy group key).mpr ha, rfl⟩

section Reordered

variable {group key} {τ : Type} {group' : β → κ} {key' : β → ω} {t : α → τ} {u : β → τ}
  (groupOf : τ → κ) (keyOf : τ → ω)

theorem map_find_bestBy_perm {l : List α} {m : List β} (h : (l.map t).Perm (m.map u))
    (hg : ∀ a, group a = groupOf (t a)) (hg' : ∀ b, group' b = groupOf (u b))
    (hk : ∀ a, key a = keyOf (t a)) (hk' : ∀ b, key' b = keyOf (u b)) (k : κ) :
    (Dict.find k (bestBy group key l)).map key = (Dict.find k (bestBy group' key' m)).map key' := by
  rw [find_bestBy, find_bestBy]
  apply map_argmin_perm
  have hl : (l.filter fun r => group r = k).map key =
      ((l.map t).filter fun x => groupOf x = k).map keyOf := by
    rw [List.filter_map, List.map_map]
    simp only [Function.comp_def, ← hg, ← hk]
  have hm : (m.filter fun r => group' r = k).map key' =
      ((m.map u).filter fun x => groupOf x = k).map keyOf := by
    rw [List.filter_map, List.map_map]
    simp only [Function.comp_def, ← hg', ← hk']
  rw [hl, hm]
  exact (h.filter _).map _

theorem bestBy_perm {l : List α} {m : List β} (h : (l.map t).Perm (m.map u))
    (hg : ∀ a, group a = groupOf (t a)) (hg' : ∀ b, group' b = groupOf (u b))
    (hk : ∀ a, key a = keyOf (t a)) (hk' : ∀ b, key' b = keyOf (u b)) :
    ((bestBy group key l).map fun item => (item.1, key item.2)).Perm
      ((bestBy group' key' m).map fun item => (item.1, key' item.2)) := by
  have hfind := map_find_bestBy_perm groupOf keyOf h hg hg' hk hk'
  have hnodup : ∀ {γ : Type} (d : List (κ × γ)) (f : γ → ω), (Dict.keys d).Nodup →
      (d.map fun item => (item.1, f item.2)).Nodup := by
    intro γ d f hd
    apply List.Nodup.of_map Prod.fst
    simpa [Dict.keys, Function.comp_def] using hd
  have hmem : ∀ {γ : Type} (d : List (κ × γ)) (f : γ → ω) (k : κ) (v : ω), (Dict.keys d).Nodup →
      ((k, v) ∈ (d.map fun item => (item.1, f item.2)) ↔ (Dict.find k d).map f = some v) := by
    intro γ d f k v hd
    rw [Option.map_eq_some_iff, List.mem_map]
    constructor
    · rintro ⟨item, hitem, heq⟩
      obtain ⟨rfl, rfl⟩ := Prod.mk.inj heq
      exact ⟨item.2, (Dict.mem_iff_find hd).mp hitem, rfl⟩
    · rintro ⟨w, hw, rfl⟩
      exact ⟨(k, w), (Dict.mem_iff_find hd).mpr hw, rfl⟩
  have hl := nodup_keys_bestBy group key l
  have hm := nodup_keys_bestBy group' key' m
  rw [List.perm_ext_iff_of_nodup (hnodup _ _ hl) (hnodup _ _ hm)]
  rintro ⟨k, v⟩
  rw [hmem _ _ _ _ hl, hmem _ _ _ _ hm, hfind k]

end Reordered

end FirstMin
