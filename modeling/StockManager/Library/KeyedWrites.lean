import Mathlib.Data.List.Nodup
import Mathlib.Data.List.Induction
import Mathlib.Tactic.Common

/-! # Assignments to keys

An assignment sets the value of its key where the key is held, and adds it at the end where it is
not; after a list of them each key has the last value it was given. -/

namespace KeyedWrites

variable {κ ν : Type} [DecidableEq κ]

def assign (d : List (κ × ν)) (a : κ × ν) : List (κ × ν) :=
  if d.any fun e => e.1 = a.1 then d.map fun e => if e.1 = a.1 then a else e else d ++ [a]

def assignAll (d ops : List (κ × ν)) : List (κ × ν) := ops.foldl assign d

def last (k : κ) : List (κ × ν) → Option ν
  | [] => none
  | a :: rest => (last k rest).or (if a.1 = k then some a.2 else none)

theorem last_append (k : κ) (ops later : List (κ × ν)) :
    last k (ops ++ later) = (last k later).or (last k ops) := by
  induction ops with
  | nil => simp [last]
  | cons a rest ih => simp [last, ih, Option.or_assoc]

theorem last_eq_none {k : κ} {ops : List (κ × ν)} : last k ops = none ↔ k ∉ ops.map (·.1) := by
  induction ops with
  | nil => simp [last]
  | cons a rest ih =>
    by_cases h : a.1 = k
    · simp [last, h]
    · have hrest : last k (a :: rest) = last k rest := by simp [last, h]
      rw [hrest, ih, List.map_cons, List.mem_cons, not_or]
      exact ⟨fun hnot => ⟨Ne.symm h, hnot⟩, And.right⟩

theorem last_isSome {k : κ} {ops : List (κ × ν)} : (∃ v, last k ops = some v) ↔ k ∈ ops.map (·.1) := by
  rw [← Option.isSome_iff_exists, ← not_iff_not, Bool.not_eq_true, Option.isSome_eq_false_iff,
    Option.isNone_iff_eq_none, last_eq_none]

theorem keys_assign (d : List (κ × ν)) (a : κ × ν) :
    (assign d a).map (·.1) = if a.1 ∈ d.map (·.1) then d.map (·.1) else d.map (·.1) ++ [a.1] := by
  unfold assign
  by_cases h : a.1 ∈ d.map (·.1)
  · have hany : (d.any fun e => e.1 = a.1) = true := by
      obtain ⟨e, he, heq⟩ := List.mem_map.mp h
      exact List.any_eq_true.mpr ⟨e, he, by simpa using heq⟩
    rw [if_pos hany, if_pos h, List.map_map]
    refine List.map_congr_left fun e _ => ?_
    by_cases heq : e.1 = a.1
    · simp [heq]
    · simp [heq]
  · have hany : ¬(d.any fun e => e.1 = a.1) = true := by
      intro hany
      obtain ⟨e, he, heq⟩ := List.any_eq_true.mp hany
      exact h (List.mem_map.mpr ⟨e, he, by simpa using heq⟩)
    rw [if_neg hany, if_neg h, List.map_append, List.map_singleton]

theorem mem_assign {d : List (κ × ν)} {a e : κ × ν} (h : e ∈ assign d a) :
    e = a ∨ (e.1 ≠ a.1 ∧ e ∈ d) := by
  unfold assign at h
  split at h
  · obtain ⟨e', he', rfl⟩ := List.mem_map.mp h
    by_cases heq : e'.1 = a.1
    · simp [heq]
    · rw [if_neg heq]
      exact .inr ⟨heq, he'⟩
  · rename_i hany
    rcases List.mem_append.mp h with he | he
    · refine .inr ⟨fun heq => hany (List.any_eq_true.mpr ⟨e, he, by simpa using heq⟩), he⟩
    · exact .inl (List.mem_singleton.mp he)

theorem mem_assignAll {d ops : List (κ × ν)} {e : κ × ν} (h : e ∈ assignAll d ops) :
    last e.1 ops = some e.2 ∨ (last e.1 ops = none ∧ e ∈ d) := by
  induction ops using List.reverseRecOn with
  | nil => exact .inr ⟨rfl, h⟩
  | append_singleton ops a ih =>
    rw [assignAll, List.foldl_append] at h
    have hlast : last e.1 (ops ++ [a]) = (if a.1 = e.1 then some a.2 else none).or
        (last e.1 ops) := by
      rw [last_append]
      simp [last]
    rw [hlast]
    rcases mem_assign h with rfl | ⟨hne, hmem⟩
    · exact .inl (by simp)
    · rw [if_neg (Ne.symm hne), Option.none_or]
      exact ih hmem

theorem keys_assignAll {d ops : List (κ × ν)} {k : κ} :
    k ∈ (assignAll d ops).map (·.1) ↔ k ∈ d.map (·.1) ∨ k ∈ ops.map (·.1) := by
  induction ops generalizing d with
  | nil => simp [assignAll]
  | cons a rest ih =>
    have hstep : assignAll d (a :: rest) = assignAll (assign d a) rest := rfl
    rw [hstep, ih, keys_assign, List.map_cons, List.mem_cons]
    split
    · rename_i hmem
      constructor
      · rintro (h | h)
        · exact .inl h
        · exact .inr (.inr h)
      · rintro (h | rfl | h)
        · exact .inl h
        · exact .inl hmem
        · exact .inr h
    · rw [List.mem_append, List.mem_singleton, or_assoc]

theorem assigned {d ops : List (κ × ν)} {k : κ} {v : ν} (h : last k ops = some v) :
    (k, v) ∈ assignAll d ops := by
  have hkey : k ∈ (assignAll d ops).map (·.1) :=
    keys_assignAll.mpr (.inr (last_isSome.mp ⟨v, h⟩))
  obtain ⟨e, he, rfl⟩ := List.mem_map.mp hkey
  rcases mem_assignAll he with hlast | ⟨hnone, -⟩
  · rw [h] at hlast
    cases hlast
    exact he
  · rw [h] at hnone
    cases hnone

theorem assignAll_held {d ops : List (κ × ν)} (h : ∀ a ∈ ops, a.1 ∈ d.map (·.1)) :
    assignAll d ops = d.map fun e => (e.1, (last e.1 ops).getD e.2) := by
  induction ops using List.reverseRecOn with
  | nil => simp [assignAll, last]
  | append_singleton ops a ih =>
    have hbefore := ih fun b hb => h b (List.mem_append_left _ hb)
    have hkey : a.1 ∈ d.map (·.1) := h a (by simp)
    have hany : ((assignAll d ops).any fun e => e.1 = a.1) = true := by
      obtain ⟨e, he, heq⟩ := List.mem_map.mp
        (keys_assignAll.mpr (.inl hkey) : a.1 ∈ (assignAll d ops).map (·.1))
      exact List.any_eq_true.mpr ⟨e, he, by simpa using heq⟩
    have hstep : assignAll d (ops ++ [a]) = assign (assignAll d ops) a := by
      rw [assignAll, List.foldl_append]
      rfl
    rw [hstep, assign, if_pos hany, hbefore, List.map_map]
    refine List.map_congr_left fun e _ => ?_
    have hlast : last e.1 (ops ++ [a]) = (if a.1 = e.1 then some a.2 else none).or
        (last e.1 ops) := by
      rw [last_append]
      simp [last]
    rw [hlast]
    by_cases heq : e.1 = a.1
    · simp [heq]
    · simp [heq, Ne.symm heq]

/-- A second list of assignments to the same keys changes nothing exactly when it ends each key
in the same value. -/
theorem assignAll_again {d ops again : List (κ × ν)}
    (hkeys : ∀ k, k ∈ again.map (·.1) → k ∈ ops.map (·.1)) :
    assignAll (assignAll d ops) again = assignAll d ops ↔
      ∀ k ∈ again.map (·.1), last k again = last k ops := by
  have hheld : ∀ a ∈ again, a.1 ∈ (assignAll d ops).map (·.1) := fun a ha =>
    keys_assignAll.mpr (.inr (hkeys a.1 (List.mem_map_of_mem ha)))
  rw [assignAll_held hheld]
  constructor
  · intro h k hk
    obtain ⟨v, hv⟩ := last_isSome.mpr (hkeys k hk)
    obtain ⟨w, hw⟩ := last_isSome.mpr hk
    have hsame := h.trans (List.map_id (assignAll d ops)).symm
    have hentry := List.map_inj_left.mp hsame (k, v) (assigned hv)
    have hvalue : (last k again).getD v = v := congrArg Prod.snd hentry
    rw [hw] at hvalue
    rw [hw, hv]
    exact congrArg some hvalue
  · intro h
    conv_rhs => rw [← List.map_id (assignAll d ops)]
    refine List.map_congr_left fun e he => ?_
    by_cases hk : e.1 ∈ again.map (·.1)
    · have hsame := h e.1 hk
      rcases mem_assignAll he with hlast | ⟨hnone, -⟩
      · rw [hsame, hlast]
        rfl
      · exact absurd (hkeys e.1 hk) (last_eq_none.mp hnone)
    · rw [last_eq_none.mpr hk]
      rfl

theorem last_zipIdx_of_notMem {k : κ} {l : List κ} (n : ℕ) (h : k ∉ l) :
    last k (l.zipIdx n) = none := by
  rw [last_eq_none]
  intro hmem
  obtain ⟨e, he, rfl⟩ := List.mem_map.mp hmem
  exact h (List.fst_mem_of_mem_zipIdx he)

theorem last_zipIdx {k : κ} {u v : List κ} (h : k ∉ v) :
    last k (u ++ k :: v).zipIdx = some u.length := by
  rw [List.zipIdx_append, List.zipIdx_cons, last_append]
  simp [last, last_zipIdx_of_notMem _ h]

theorem exists_last_split {k : κ} {l : List κ} (h : k ∈ l) :
    ∃ u v, l = u ++ k :: v ∧ k ∉ v := by
  induction l with
  | nil => cases h
  | cons a rest ih =>
    by_cases hrest : k ∈ rest
    · obtain ⟨u, v, rfl, hv⟩ := ih hrest
      exact ⟨a :: u, v, rfl, hv⟩
    · rcases List.mem_cons.mp h with rfl | h
      · exact ⟨[], rest, rfl, hrest⟩
      · exact absurd h hrest

theorem mem_of_last {k : κ} {v : ν} {ops : List (κ × ν)} (h : last k ops = some v) :
    (k, v) ∈ ops := by
  induction ops with
  | nil => cases h
  | cons a rest ih =>
    rw [last] at h
    cases hrest : last k rest with
    | some w =>
      rw [hrest] at h
      cases h
      exact List.mem_cons_of_mem _ (ih hrest)
    | none =>
      rw [hrest, Option.none_or] at h
      split at h
      · rename_i hkey
        cases h
        rw [← hkey]
        exact List.mem_cons_self
      · cases h

theorem getElem?_of_last {k : κ} {l : List κ} {i : ℕ} (h : last k l.zipIdx = some i) :
    l[i]? = some k :=
  List.mem_zipIdx_iff_getElem?.mp (mem_of_last h)

theorem last_zipIdx_lt {k m : κ} {u v : List κ} {i j : ℕ} (hk : k ∉ v) (hm : m ∈ v)
    (hi : last k (u ++ v).zipIdx = some i) (hj : last m (u ++ v).zipIdx = some j) : i < j := by
  have hfirst : i < u.length := by
    by_contra hge
    have hget := getElem?_of_last hi
    rw [List.getElem?_append_right (Nat.le_of_not_lt hge)] at hget
    exact hk (List.mem_of_getElem? hget)
  obtain ⟨before, after, rfl, hafter⟩ := exists_last_split hm
  rw [← List.append_assoc, last_zipIdx hafter] at hj
  have hlater := Option.some.inj hj
  rw [List.length_append] at hlater
  omega

section KeepFirst

variable {α β : Type} [DecidableEq α] [DecidableEq β]

def keepFirst (l : List α) : List α :=
  l.foldl (fun kept a => if a ∈ kept then kept else kept ++ [a]) []

theorem keepFirst_snoc (l : List α) (a : α) :
    keepFirst (l ++ [a]) = if a ∈ keepFirst l then keepFirst l else keepFirst l ++ [a] := by
  rw [keepFirst, List.foldl_append]
  rfl

theorem mem_keepFirst {l : List α} {a : α} : a ∈ keepFirst l ↔ a ∈ l := by
  induction l using List.reverseRecOn with
  | nil => simp [keepFirst]
  | append_singleton l b ih =>
    rw [keepFirst_snoc, List.mem_append, List.mem_singleton, ← ih]
    split
    · rename_i hmem
      constructor
      · exact .inl
      · rintro (h | rfl)
        · exact h
        · exact hmem
    · rw [List.mem_append, List.mem_singleton]

theorem keepFirst_of_nodup {l : List α} (h : l.Nodup) : keepFirst l = l := by
  induction l using List.reverseRecOn with
  | nil => rfl
  | append_singleton l b ih =>
    obtain ⟨hl, -, hdisjoint⟩ := List.nodup_append.mp h
    rw [keepFirst_snoc, ih hl, if_neg fun hb => hdisjoint b hb b (by simp) rfl]

theorem length_keepFirst_le (l : List α) : (keepFirst l).length ≤ l.length := by
  induction l using List.reverseRecOn with
  | nil => simp [keepFirst]
  | append_singleton l b ih =>
    rw [keepFirst_snoc]
    split
    · rw [List.length_append]
      omega
    · rw [List.length_append, List.length_append]
      omega

theorem nodup_of_length_keepFirst {l : List α} (h : l.length ≤ (keepFirst l).length) :
    l.Nodup := by
  induction l using List.reverseRecOn with
  | nil => exact List.nodup_nil
  | append_singleton l b ih =>
    have hle := length_keepFirst_le l
    rw [keepFirst_snoc] at h
    split at h
    · rw [List.length_append, List.length_singleton] at h
      omega
    · rename_i hnot
      rw [List.length_append, List.length_append, List.length_singleton] at h
      rw [List.nodup_append]
      refine ⟨ih (by omega), List.nodup_singleton b, fun a ha c hc heq => ?_⟩
      rw [List.mem_singleton.mp hc] at heq
      exact hnot (mem_keepFirst.mpr (heq ▸ ha))

theorem keepFirst_append (u v : List α) :
    ∃ more, keepFirst (u ++ v) = keepFirst u ++ more ∧ ∀ a ∈ more, a ∉ u := by
  induction v using List.reverseRecOn with
  | nil => exact ⟨[], by simp, by simp⟩
  | append_singleton v b ih =>
    obtain ⟨more, hmore, hnew⟩ := ih
    rw [← List.append_assoc, keepFirst_snoc]
    split
    · exact ⟨more, hmore, hnew⟩
    · rename_i hnot
      refine ⟨more ++ [b], by rw [hmore, List.append_assoc], fun a ha => ?_⟩
      rcases List.mem_append.mp ha with ha | ha
      · exact hnew a ha
      · rw [List.mem_singleton.mp ha]
        intro hb
        exact hnot (mem_keepFirst.mpr (List.mem_append_left _ hb))

theorem keepFirst_filter (p : α → Bool) (l : List α) :
    keepFirst (l.filter p) = (keepFirst l).filter p := by
  induction l using List.reverseRecOn with
  | nil => rfl
  | append_singleton l b ih =>
    rw [List.filter_append, keepFirst_snoc]
    by_cases hb : p b = true
    · rw [List.filter_cons_of_pos hb, List.filter_nil, keepFirst_snoc, ih]
      by_cases hmem : b ∈ keepFirst l
      · rw [if_pos hmem, if_pos (List.mem_filter.mpr ⟨hmem, hb⟩)]
      · rw [if_neg hmem, if_neg fun h => hmem (List.mem_filter.mp h).1, List.filter_append,
          List.filter_cons_of_pos hb, List.filter_nil]
    · rw [List.filter_cons_of_neg hb, List.filter_nil, List.append_nil, ih]
      split
      · rfl
      · rw [List.filter_append, List.filter_cons_of_neg hb, List.filter_nil, List.append_nil]

theorem keepFirst_append_disjoint {u v : List α} (h : ∀ a ∈ v, a ∉ u) :
    keepFirst (u ++ v) = keepFirst u ++ keepFirst v := by
  induction v using List.reverseRecOn with
  | nil => simp [keepFirst]
  | append_singleton v b ih =>
    have hv := ih fun a ha => h a (List.mem_append_left _ ha)
    have hb : b ∉ keepFirst u := fun hmem => h b (by simp) (mem_keepFirst.mp hmem)
    rw [← List.append_assoc, keepFirst_snoc, keepFirst_snoc, hv]
    by_cases hmem : b ∈ keepFirst v
    · rw [if_pos (List.mem_append_right _ hmem), if_pos hmem]
    · have hneither : b ∉ keepFirst u ++ keepFirst v := fun h =>
        (List.mem_append.mp h).elim hb hmem
      rw [if_neg hneither, if_neg hmem, List.append_assoc]

theorem keepFirst_map_keepFirst (f : α → β) (l : List α) :
    keepFirst ((keepFirst l).map f) = keepFirst (l.map f) := by
  induction l using List.reverseRecOn with
  | nil => rfl
  | append_singleton l b ih =>
    rw [keepFirst_snoc, List.map_append, List.map_singleton, keepFirst_snoc (l.map f)]
    split
    · rename_i hmem
      have hf : f b ∈ keepFirst (l.map f) :=
        mem_keepFirst.mpr (List.mem_map_of_mem (mem_keepFirst.mp hmem))
      rw [if_pos hf, ih]
    · rw [List.map_append, List.map_singleton, keepFirst_snoc, ih]

theorem keepFirst_map_of_injOn {f : α → β} {l : List α}
    (h : ∀ a ∈ l, ∀ b ∈ l, f a = f b → a = b) : keepFirst (l.map f) = (keepFirst l).map f := by
  induction l using List.reverseRecOn with
  | nil => rfl
  | append_singleton l b ih =>
    have hl := ih fun a ha c hc => h a (List.mem_append_left _ ha) c (List.mem_append_left _ hc)
    rw [List.map_append, List.map_singleton, keepFirst_snoc, keepFirst_snoc, hl]
    by_cases hmem : b ∈ keepFirst l
    · rw [if_pos hmem, if_pos (List.mem_map_of_mem hmem)]
    · have hf : f b ∉ (keepFirst l).map f := by
        intro hf
        obtain ⟨a, ha, heq⟩ := List.mem_map.mp hf
        have hab := h a (List.mem_append_left _ (mem_keepFirst.mp ha)) b (by simp) heq
        exact hmem (hab ▸ ha)
      rw [if_neg hmem, if_neg hf, List.map_append, List.map_singleton]

/-- Dropping later occurrences leaves a key its position exactly when nothing up to its last
occurrence repeats. -/
theorem last_keepFirst (k : α) (u v : List α) :
    last k (keepFirst (u ++ k :: v)).zipIdx = some u.length ↔ (u ++ [k]).Nodup := by
  have hsplit : u ++ k :: v = (u ++ [k]) ++ v := by simp
  obtain ⟨more, hmore, hnew⟩ := keepFirst_append (u ++ [k]) v
  have hk : k ∈ keepFirst (u ++ [k]) := mem_keepFirst.mpr (by simp)
  obtain ⟨w, x, hw, hx⟩ := exists_last_split hk
  have hxmore : k ∉ x ++ more := fun hmem => (List.mem_append.mp hmem).elim hx
    fun hmem => hnew k hmem (by simp)
  have hlast : last k (keepFirst (u ++ k :: v)).zipIdx = some w.length := by
    rw [hsplit, hmore, hw, List.append_assoc, List.cons_append]
    exact last_zipIdx hxmore
  rw [hlast, Option.some.injEq]
  have hlength := congrArg List.length hw
  rw [List.length_append, List.length_cons] at hlength
  constructor
  · intro hposition
    refine nodup_of_length_keepFirst ?_
    rw [hlength, List.length_append, List.length_cons, List.length_nil]
    omega
  · intro hnodup
    -- the last element of what is kept is the key itself
    have hx' : x = [] := by
      have hrest : (u ++ [k]).getLast? = (k :: x).getLast? := by
        rw [← keepFirst_of_nodup hnodup, hw, List.getLast?_append_of_ne_nil _ (by simp)]
      cases x with
      | nil => rfl
      | cons a rest =>
        rw [List.getLast?_append_of_ne_nil _ (by simp), List.getLast?_singleton,
          List.getLast?_cons_cons] at hrest
        exact absurd (List.mem_of_getLast? hrest.symm) hx
    rw [keepFirst_of_nodup hnodup, hx', List.length_append] at hlength
    simp only [List.length_cons, List.length_nil] at hlength
    omega

end KeepFirst

section Owners

variable {ω μ : Type}

def positionsOf (entries : List (ω × List μ)) : List ((ω × μ) × ℕ) :=
  entries.flatMap fun entry => entry.2.zipIdx.map fun placed => ((entry.1, placed.1), placed.2)

theorem positionsOf_append (entries later : List (ω × List μ)) :
    positionsOf (entries ++ later) = positionsOf entries ++ positionsOf later :=
  List.flatMap_append

theorem mem_keys_positionsOf {entries : List (ω × List μ)} {owner : ω} {member : μ} :
    (owner, member) ∈ (positionsOf entries).map (·.1) ↔
      ∃ members, (owner, members) ∈ entries ∧ member ∈ members := by
  constructor
  · intro h
    obtain ⟨op, hop, hkey⟩ := List.mem_map.mp h
    obtain ⟨entry, hentry, hop⟩ := List.mem_flatMap.mp hop
    obtain ⟨placed, hplaced, rfl⟩ := List.mem_map.mp hop
    obtain ⟨rfl, rfl⟩ := Prod.mk.inj hkey
    exact ⟨entry.2, hentry, List.fst_mem_of_mem_zipIdx hplaced⟩
  · rintro ⟨members, hentry, hmember⟩
    rw [← List.zipIdx_map_fst 0 members] at hmember
    obtain ⟨placed, hplaced, rfl⟩ := List.mem_map.mp hmember
    exact List.mem_map.mpr ⟨((owner, placed.1), placed.2), List.mem_flatMap.mpr
      ⟨_, hentry, List.mem_map.mpr ⟨placed, hplaced, rfl⟩⟩, rfl⟩

theorem last_map_key {ι : Type} [DecidableEq ι] {f : κ → ι} (hf : Function.Injective f) (k : κ)
    (ops : List (κ × ν)) : last (f k) (ops.map fun op => (f op.1, op.2)) = last k ops := by
  induction ops with
  | nil => rfl
  | cons op rest ih =>
    rw [List.map_cons, last, last, ih]
    by_cases h : op.1 = k
    · rw [if_pos h, if_pos (congrArg f h)]
    · rw [if_neg h, if_neg fun heq => h (hf heq)]

theorem last_positionsOf [DecidableEq ω] [DecidableEq μ] {before after : List (ω × List μ)}
    {owner : ω} {members : List μ} {member : μ} (hmember : member ∈ members)
    (hafter : ∀ entry ∈ after, entry.1 = owner → member ∉ entry.2) :
    last (owner, member) (positionsOf (before ++ (owner, members) :: after)) =
      last member members.zipIdx := by
  have hnone : last (owner, member) (positionsOf after) = none := by
    rw [last_eq_none, mem_keys_positionsOf]
    rintro ⟨others, hentry, hothers⟩
    exact hafter _ hentry rfl hothers
  have hown : last (owner, member) (positionsOf [(owner, members)]) =
      last member members.zipIdx := by
    have hinjective : Function.Injective (Prod.mk owner : μ → ω × μ) :=
      fun a b h => (Prod.mk.inj h).2
    rw [positionsOf, List.flatMap_singleton]
    exact last_map_key hinjective member members.zipIdx
  obtain ⟨position, hposition⟩ := last_isSome.mpr
    ((List.zipIdx_map_fst 0 members).symm ▸ hmember : member ∈ members.zipIdx.map (·.1))
  have hsplit : before ++ (owner, members) :: after =
      before ++ ([(owner, members)] ++ after) := rfl
  rw [hsplit, positionsOf_append, positionsOf_append, last_append, last_append, hnone,
    Option.none_or, hown, hposition, Option.some_or]

theorem exists_last_entry {entries : List (ω × List μ)} {owner : ω} {member : μ}
    (h : ∃ members, (owner, members) ∈ entries ∧ member ∈ members) :
    ∃ before members after, entries = before ++ (owner, members) :: after ∧ member ∈ members ∧
      ∀ entry ∈ after, entry.1 = owner → member ∉ entry.2 := by
  induction entries with
  | nil =>
    obtain ⟨_, hentry, -⟩ := h
    cases hentry
  | cons entry rest ih =>
    by_cases hrest : ∃ members, (owner, members) ∈ rest ∧ member ∈ members
    · obtain ⟨before, members, after, rfl, hlast⟩ := ih hrest
      exact ⟨entry :: before, members, after, rfl, hlast⟩
    · obtain ⟨members, hentry, hmember⟩ := h
      rcases List.mem_cons.mp hentry with rfl | hentry
      · refine ⟨[], members, rest, rfl, hmember, fun other hother howner hin => ?_⟩
        exact hrest ⟨other.2, howner ▸ hother, hin⟩
      · exact absurd ⟨members, hentry, hmember⟩ hrest

/-- Up to a member's last place under its owner no member of the owner stands twice. -/
def Settled (entries : List (ω × List μ)) : Prop :=
  ∀ before owner members after, entries = before ++ (owner, members) :: after →
    ∀ earlier member later, members = earlier ++ member :: later → member ∉ later →
      (∀ entry ∈ after, entry.1 = owner → member ∉ entry.2) → (earlier ++ [member]).Nodup

theorem settled_of_nodup {entries : List (ω × List μ)} (h : ∀ entry ∈ entries, entry.2.Nodup) :
    Settled entries := by
  intro before owner members after hentries earlier member later hmembers _ _
  have hnodup : members.Nodup := h (owner, members) (by simp [hentries])
  have hsplit : members = (earlier ++ [member]) ++ later := by simp [hmembers]
  rw [hsplit] at hnodup
  exact hnodup.of_append_left

def keepMembers [DecidableEq μ] (entries : List (ω × List μ)) : List (ω × List μ) :=
  entries.map fun entry => (entry.1, keepFirst entry.2)

theorem mem_keys_keepMembers [DecidableEq μ] {entries : List (ω × List μ)} {key : ω × μ} :
    key ∈ (positionsOf (keepMembers entries)).map (·.1) ↔
      key ∈ (positionsOf entries).map (·.1) := by
  obtain ⟨owner, member⟩ := key
  rw [mem_keys_positionsOf, mem_keys_positionsOf]
  constructor
  · rintro ⟨members, hentry, hmember⟩
    obtain ⟨entry, hmem, heq⟩ := List.mem_map.mp hentry
    obtain ⟨rfl, rfl⟩ := Prod.mk.inj heq
    exact ⟨entry.2, hmem, mem_keepFirst.mp hmember⟩
  · rintro ⟨members, hentry, hmember⟩
    exact ⟨keepFirst members, List.mem_map.mpr ⟨_, hentry, rfl⟩, mem_keepFirst.mpr hmember⟩

/-- Keeping each owner's first occurrences gives every key the position it has, exactly when the
entries are settled. -/
theorem positions_kept_iff [DecidableEq ω] [DecidableEq μ] {entries : List (ω × List μ)} :
    (∀ key ∈ (positionsOf (keepMembers entries)).map (·.1),
      last key (positionsOf (keepMembers entries)) = last key (positionsOf entries)) ↔
        Settled entries := by
  have hposition : ∀ before owner earlier member later after,
      (entries = before ++ (owner, earlier ++ member :: later) :: after) → member ∉ later →
      (∀ entry ∈ after, entry.1 = owner → member ∉ entry.2) →
      (last (owner, member) (positionsOf (keepMembers entries)) =
        last (owner, member) (positionsOf entries) ↔ (earlier ++ [member]).Nodup) := by
    intro before owner earlier member later after hentries hlater hafter
    have hmember : member ∈ earlier ++ member :: later := by simp
    have hkept : keepMembers entries = keepMembers before ++
        (owner, keepFirst (earlier ++ member :: later)) :: keepMembers after := by
      rw [hentries, keepMembers, List.map_append]
      rfl
    have hafter' : ∀ entry ∈ keepMembers after, entry.1 = owner → member ∉ entry.2 := by
      intro entry hentry howner hin
      obtain ⟨other, hother, rfl⟩ := List.mem_map.mp hentry
      exact hafter other hother howner (mem_keepFirst.mp hin)
    rw [hkept, last_positionsOf (mem_keepFirst.mpr hmember) hafter', hentries,
      last_positionsOf hmember hafter, last_zipIdx hlater]
    exact last_keepFirst member earlier later
  constructor
  · intro h before owner members after hentries earlier member later hmembers hlater hafter
    subst hmembers
    refine (hposition before owner earlier member later after hentries hlater hafter).mp (h _ ?_)
    rw [mem_keys_keepMembers, mem_keys_positionsOf, hentries]
    exact ⟨earlier ++ member :: later, by simp, by simp⟩
  · intro h key hkey
    obtain ⟨owner, member⟩ := key
    rw [mem_keys_keepMembers, mem_keys_positionsOf] at hkey
    obtain ⟨before, members, after, hentries, hmember, hafter⟩ := exists_last_entry hkey
    obtain ⟨earlier, later, rfl, hlater⟩ := exists_last_split hmember
    exact (hposition before owner earlier member later after hentries hlater hafter).mpr
      (h before owner _ after hentries earlier member later rfl hlater hafter)

theorem settled_map {ω' μ' : Type} {f : ω → ω'} {g : μ → μ'}
    {entries : List (ω × List μ)}
    (hf : ∀ a ∈ entries, ∀ b ∈ entries, f a.1 = f b.1 → a.1 = b.1)
    (hg : ∀ a ∈ entries, ∀ b ∈ entries, ∀ x ∈ a.2, ∀ y ∈ b.2, g x = g y → x = y) :
    Settled (entries.map fun entry => (f entry.1, entry.2.map g)) ↔ Settled entries := by
  have hmem : ∀ {a b : ω × List μ} {x : μ}, a ∈ entries → b ∈ entries → x ∈ a.2 →
      (g x ∈ b.2.map g ↔ x ∈ b.2) := by
    intro a b x ha hb hx
    constructor
    · intro h
      obtain ⟨y, hy, heq⟩ := List.mem_map.mp h
      exact hg b hb a ha y hy x hx heq ▸ hy
    · exact List.mem_map_of_mem
  constructor
  · intro h before owner members after hentries earlier member later hmembers hlater hafter
    subst hmembers
    have hthis : (owner, earlier ++ member :: later) ∈ entries := by simp [hentries]
    have hmember : member ∈ earlier ++ member :: later := by simp
    have hnodup := h (before.map fun entry => (f entry.1, entry.2.map g)) (f owner)
      ((earlier ++ member :: later).map g) (after.map fun entry => (f entry.1, entry.2.map g))
      (by rw [hentries, List.map_append, List.map_cons]) (earlier.map g) (g member) (later.map g)
      (by rw [List.map_append, List.map_cons]) ?_ ?_
    · rw [← List.map_singleton, ← List.map_append] at hnodup
      exact hnodup.of_map
    · intro hin
      obtain ⟨y, hy, heq⟩ := List.mem_map.mp hin
      have hy' : y ∈ earlier ++ member :: later := by simp [hy]
      exact hlater (hg _ hthis _ hthis y hy' member hmember heq ▸ hy)
    · intro entry hentry howner hin
      obtain ⟨other, hother, rfl⟩ := List.mem_map.mp hentry
      have hother' : other ∈ entries := by simp [hentries, hother]
      exact hafter other hother (hf other hother' _ hthis howner)
        ((hmem hthis hother' hmember).mp hin)
  · intro h before' owner' members' after' hentries' earlier' member' later' hmembers' hlater'
      hafter'
    obtain ⟨before, rest, hentries, rfl, hrest⟩ := List.map_eq_append_iff.mp hentries'
    obtain ⟨entry, after, rfl, hentry, rfl⟩ := List.map_eq_cons_iff.mp hrest
    obtain ⟨rfl, rfl⟩ := Prod.mk.inj hentry
    obtain ⟨earlier, tail, hmembers, rfl, htail⟩ := List.map_eq_append_iff.mp hmembers'
    obtain ⟨member, later, rfl, rfl, rfl⟩ := List.map_eq_cons_iff.mp htail
    have hthis : entry ∈ entries := by simp [hentries]
    have hmember : member ∈ entry.2 := by simp [hmembers]
    have hnodup : (earlier ++ [member]).Nodup := by
      refine h before entry.1 entry.2 after hentries earlier member later hmembers ?_ ?_
      · exact fun hin => hlater' (List.mem_map_of_mem hin)
      · intro other hother howner hin
        refine hafter' _ (List.mem_map_of_mem hother) (congrArg f howner) ?_
        exact List.mem_map_of_mem hin
    rw [← List.map_singleton, ← List.map_append]
    refine hnodup.map_on fun x hx y hy heq => hg entry hthis entry hthis x ?_ y ?_ heq
    · rw [hmembers]
      exact (List.mem_append.mp hx).elim (fun hin => List.mem_append_left _ hin)
        fun hin => by simp [List.mem_singleton.mp hin]
    · rw [hmembers]
      exact (List.mem_append.mp hy).elim (fun hin => List.mem_append_left _ hin)
        fun hin => by simp [List.mem_singleton.mp hin]

end Owners

end KeyedWrites
