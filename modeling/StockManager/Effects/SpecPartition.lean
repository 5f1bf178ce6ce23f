import StockManager.Model.SpecSchema

/-! # What `_partition` keeps and refuses -/

namespace StockManager.Specs

variable {raw : List (String × String)} {key : String}

/-- The payload has a pair with this key. -/
def Given (raw : List (String × String)) (key : String) : Prop :=
  key ≠ "" ∧ ∃ pair ∈ raw, strip pair.1 = key

/-- The stripped values of a key, in payload order -/
def valuesOf (raw : List (String × String)) (key : String) : List String :=
  (raw.filter fun pair => strip pair.1 = key).map fun pair => strip pair.2

def firstReal (raw : List (String × String)) (key : String) : Option String :=
  if key = "" ∨ isJunkKey key = true then none
  else (valuesOf raw key).find? fun value => ¬ isJunkValue value = true

/-- The key is junk, or each of its values is. -/
def Refused (raw : List (String × String)) (key : String) : Prop :=
  Given raw key ∧
    (isJunkKey key = true ∨ ∀ pair ∈ raw, strip pair.1 = key → isJunkValue (strip pair.2) = true)

theorem valuesOf_append (pair : String × String) : valuesOf (raw ++ [pair]) key =
    valuesOf raw key ++ if strip pair.1 = key then [strip pair.2] else [] := by
  rw [valuesOf, valuesOf, List.filter_append, List.map_append]
  by_cases h : strip pair.1 = key <;> simp [h]

theorem firstReal_append (pair : String × String) : firstReal (raw ++ [pair]) key =
    (firstReal raw key).or
      (if strip pair.1 = key ∧ key ≠ "" ∧ ¬ isJunkKey key = true ∧ ¬ isJunkValue (strip pair.2) = true
        then some (strip pair.2) else none) := by
  rw [firstReal, firstReal]
  by_cases hskip : key = "" ∨ isJunkKey key = true
  · rw [if_pos hskip, if_pos hskip, if_neg (by tauto)]
    rfl
  · rw [if_neg hskip, if_neg hskip, valuesOf_append, List.find?_append]
    rw [not_or] at hskip
    by_cases hkey : strip pair.1 = key
    · by_cases hjunk : isJunkValue (strip pair.2) = true
      · rw [if_pos hkey, if_neg fun h => h.2.2.2 hjunk]
        simp [hjunk]
      · rw [if_pos hkey, if_pos ⟨hkey, hskip.1, hskip.2, hjunk⟩]
        simp [hjunk]
    · rw [if_neg hkey, if_neg fun h => hkey h.1]
      rfl

theorem firstReal_given {value : String} (h : firstReal raw key = some value) : Given raw key := by
  rw [firstReal] at h
  split at h
  next => exact absurd h (by simp)
  next hskip =>
    rw [not_or] at hskip
    have hmem := List.mem_of_find?_eq_some h
    obtain ⟨pair, hpair, -⟩ := List.mem_map.mp hmem
    rw [List.mem_filter] at hpair
    exact ⟨hskip.1, pair, hpair.1, of_decide_eq_true hpair.2⟩

theorem firstReal_value {value : String} (h : firstReal raw key = some value) :
    ∃ pair ∈ raw, strip pair.1 = key ∧ strip pair.2 = value ∧ isJunkValue value = false := by
  rw [firstReal] at h
  split at h
  next => exact absurd h (by simp)
  next =>
    have hmem := List.mem_of_find?_eq_some h
    have hreal := List.find?_some h
    obtain ⟨pair, hpair, hvalue⟩ := List.mem_map.mp hmem
    rw [List.mem_filter] at hpair
    exact ⟨pair, hpair.1, of_decide_eq_true hpair.2, hvalue, by simpa using hreal⟩

theorem refused_iff : Refused raw key ↔ Given raw key ∧ firstReal raw key = none := by
  rw [Refused, firstReal]
  refine and_congr_right fun hgiven => ?_
  by_cases hjunk : isJunkKey key = true
  · rw [if_pos (.inr hjunk)]
    exact iff_of_true (.inl hjunk) rfl
  · rw [if_neg (not_or.mpr ⟨hgiven.1, hjunk⟩), List.find?_eq_none, or_iff_right hjunk]
    constructor
    · intro h value hvalue
      obtain ⟨pair, hpair, rfl⟩ := List.mem_map.mp hvalue
      rw [List.mem_filter] at hpair
      simpa using h pair hpair.1 (of_decide_eq_true hpair.2)
    · intro h pair hpair hkey
      have hvalue := h (strip pair.2) (List.mem_map.mpr
        ⟨pair, List.mem_filter.mpr ⟨hpair, decide_eq_true hkey⟩, rfl⟩)
      simpa using hvalue

structure PartitionSpec (raw : List (String × String)) (parts : Partitioned) : Prop where
  nodup : parts.order.Nodup
  order : ∀ key, key ∈ parts.order ↔ Given raw key
  kept : ∀ key, Dict.find key parts.kept = firstReal raw key

theorem partitionPair_order (parts : Partitioned) (pair : String × String) :
    (partitionPair parts pair).order =
      if strip pair.1 = "" ∨ strip pair.1 ∈ parts.order then parts.order
      else parts.order ++ [strip pair.1] := by
  rw [partitionPair]
  by_cases hblank : strip pair.1 = ""
  · rw [if_pos hblank, if_pos (.inl hblank)]
  · rw [if_neg hblank]
    have hor : (strip pair.1 = "" ∨ strip pair.1 ∈ parts.order) ↔ strip pair.1 ∈ parts.order :=
      or_iff_right hblank
    simp only [hor]
    split_ifs <;> rfl

theorem partitionPair_find (parts : Partitioned) (pair : String × String) :
    Dict.find key (partitionPair parts pair).kept = (Dict.find key parts.kept).or
      (if strip pair.1 = key ∧ key ≠ "" ∧ ¬ isJunkKey key = true ∧ ¬ isJunkValue (strip pair.2) = true
        then some (strip pair.2) else none) := by
  rw [partitionPair]
  by_cases hkey : strip pair.1 = key
  · rw [hkey]
    by_cases hblank : key = ""
    · rw [if_pos hblank, if_neg fun h => h.2.1 hblank, Option.or_none]
    · rw [if_neg hblank]
      by_cases hknown : key ∈ Dict.keys parts.kept
      · have hsome : Dict.find key parts.kept ≠ none := fun h => Dict.find_eq_none.mp h hknown
        obtain ⟨value, hvalue⟩ := Option.ne_none_iff_exists'.mp hsome
        simp [hknown, hvalue]
      · have hnone := Dict.find_eq_none.mpr hknown
        by_cases hjunkKey : isJunkKey key = true
        · simp [hjunkKey, hnone]
        · by_cases hjunk : isJunkValue (strip pair.2) = true
          · simp [hjunk, hjunkKey, hknown, hnone]
          · simp [hjunk, hjunkKey, hknown, hnone, hblank, Dict.put, Dict.find_upsert_self]
  · have hright : (Dict.find key parts.kept).or (if strip pair.1 = key ∧ key ≠ "" ∧
        ¬ isJunkKey key = true ∧ ¬ isJunkValue (strip pair.2) = true then some (strip pair.2) else none) =
        Dict.find key parts.kept := by
      rw [if_neg fun h => hkey h.1, Option.or_none]
    rw [hright]
    split_ifs
    all_goals first
      | rfl
      | exact Dict.find_upsert_of_ne hkey _ _ _

theorem partitioned_spec (raw : List (String × String)) : PartitionSpec raw (partitioned raw) := by
  induction raw using List.reverseRecOn with
  | nil => exact ⟨List.nodup_nil, fun key => by simp [partitioned, Given], fun key => by
      simp [partitioned, firstReal, valuesOf, Dict.find]⟩
  | append_singleton raw pair ih =>
    have hstep : partitioned (raw ++ [pair]) = partitionPair (partitioned raw) pair := by
      rw [partitioned, List.foldl_append]
      rfl
    rw [hstep]
    refine ⟨?_, fun key => ?_, fun key => ?_⟩
    · rw [partitionPair_order]
      split
      next => exact ih.nodup
      next hnew =>
        rw [not_or] at hnew
        exact List.nodup_append.mpr ⟨ih.nodup, by simp, fun a ha b hb heq => hnew.2 (by
          rw [List.mem_singleton] at hb
          rwa [← hb, ← heq])⟩
    · rw [partitionPair_order]
      have hgiven : Given (raw ++ [pair]) key ↔
          Given raw key ∨ key ≠ "" ∧ strip pair.1 = key := by
        simp only [Given, List.mem_append, List.mem_singleton, or_and_right, exists_or, exists_eq_left,
          and_or_left]
      rw [hgiven, ← ih.order]
      by_cases hkey : strip pair.1 = key
      · split
        next hskip =>
          rcases hskip with hblank | hmem
          · rw [hkey] at hblank
            simp [hblank]
          · rw [hkey] at hmem
            exact iff_of_true hmem (.inl hmem)
        next hnew =>
          rw [not_or, hkey] at hnew
          rw [hkey]
          simp [hnew.1]
      · split
        next => simp [hkey]
        next => simp [hkey, Ne.symm hkey]
    · rw [partitionPair_find, ih.kept, firstReal_append]

theorem mem_keptPairs {value : String} :
    (key, value) ∈ keptPairs raw ↔ firstReal raw key = some value := by
  have hspec := partitioned_spec raw
  rw [keptPairs, List.mem_filterMap]
  constructor
  · intro ⟨name, hname, hpair⟩
    obtain ⟨found, hfound, heq⟩ := Option.map_eq_some_iff.mp hpair
    rw [Prod.mk.injEq] at heq
    rw [← heq.1, ← heq.2, ← hspec.kept, hfound]
  · intro h
    refine ⟨key, (hspec.order key).mpr (firstReal_given h), ?_⟩
    rw [hspec.kept, h]
    rfl

theorem keys_keptPairs : Dict.keys (keptPairs raw) =
    (partitioned raw).order.filter fun key => (firstReal raw key).isSome := by
  have hspec := partitioned_spec raw
  have hkept : (fun key => (Dict.find key (partitioned raw).kept).map fun value => (key, value)) =
      fun key => (firstReal raw key).map fun value => (key, value) := by
    funext key
    rw [hspec.kept]
  rw [keptPairs, hkept, Dict.keys]
  induction (partitioned raw).order with
  | nil => rfl
  | cons key order ih =>
    cases h : firstReal raw key with
    | none => simp [h, ih]
    | some value => simp [h, ih]

theorem nodup_keptPairs : (Dict.keys (keptPairs raw)).Nodup := by
  rw [keys_keptPairs]
  exact (partitioned_spec raw).nodup.filter _

theorem find_keptPairs (raw : List (String × String)) (key : String) :
    Dict.find key (keptPairs raw) = firstReal raw key := by
  cases h : firstReal raw key with
  | some value => exact (Dict.mem_iff_find nodup_keptPairs).mp (mem_keptPairs.mpr h)
  | none =>
    rw [Dict.find_eq_none]
    intro hkey
    rw [keys_keptPairs, List.mem_filter, h] at hkey
    exact absurd hkey.2 (by simp)

theorem mem_keys_keptPairs : key ∈ Dict.keys (keptPairs raw) ↔ (firstReal raw key).isSome = true := by
  rw [keys_keptPairs, List.mem_filter, (partitioned_spec raw).order]
  refine and_iff_right_of_imp fun h => ?_
  obtain ⟨value, hvalue⟩ := Option.isSome_iff_exists.mp h
  exact firstReal_given hvalue

theorem mem_refusedKeys : key ∈ refusedKeys raw ↔ Refused raw key := by
  have hspec := partitioned_spec raw
  rw [refusedKeys, List.mem_filter, hspec.order, refused_iff, decide_eq_true_eq, ← Dict.find_eq_none,
    hspec.kept]

theorem nodup_refusedKeys : (refusedKeys raw).Nodup := (partitioned_spec raw).nodup.filter _

/-- A key of the payload is kept or refused. -/
theorem given_iff : Given raw key ↔ key ∈ Dict.keys (keptPairs raw) ∨ Refused raw key := by
  rw [mem_keys_keptPairs, refused_iff]
  cases h : firstReal raw key with
  | none => simp
  | some value => simp [firstReal_given h]

end StockManager.Specs
