import StockManager.Effects.Allocation

/-! # Splitting a requirement over the stages

`_allocate` gives the stages, in order, the steps of `⌈total * running percentage / 100⌉`. -/

namespace StockManager

/-- What `_allocate` gives out over all stages. -/
def givenOut (total : Decimal) (portions : List (Uuid × Decimal)) : ℤ :=
  ((allocate total portions).map Prod.snd).sum

/-- What `_allocate` gives one stage. -/
def givenTo (total : Decimal) (portions : List (Uuid × Decimal)) (stageId : Uuid) : ℤ :=
  (Dict.find stageId (allocate total portions)).getD 0

/-- Positive portions of distinct stages that come to a hundred percent at most. -/
structure Portions (portions : List (Uuid × Decimal)) : Prop where
  stages : (portions.map Prod.fst).Nodup
  positive : ∀ item ∈ portions, 0 < item.2
  within : CumulativeSplit.total portions ≤ 100

/-- Two adjacent stages give way to one with the sum of their portions, under the name
of either or a new one. -/
structure Merged (portions merged : List (Uuid × Decimal)) (a b c : Uuid) : Prop where
  adjacent : ∃ before p q after, portions = before ++ (a, p) :: (b, q) :: after ∧
    merged = before ++ (c, p + q) :: after
  stages : (merged.map Prod.fst).Nodup

/-- Nothing is lost to rounding and nothing invented. -/
structure SplitsExactly (total : Decimal) (portions : List (Uuid × Decimal)) : Prop where
  stages : Dict.keys (allocate total portions) = portions.map Prod.fst
  nonneg : ∀ item ∈ allocate total portions, 0 ≤ item.2
  running : ∀ k, (((allocate total portions).take k).map Prod.snd).sum =
    ⌈total * CumulativeSplit.total (portions.take k) / 100⌉
  bounded : givenOut total portions ≤ ⌈total⌉
  reaches : givenOut total portions = ⌈total⌉ ↔
    ⌈total * CumulativeSplit.total portions / 100⌉ = ⌈total⌉
  complete : CumulativeSplit.total portions = 100 ↔
    ∀ whole : Decimal, 0 ≤ whole → givenOut whole portions = ⌈whole⌉
  monotone : ∀ more, total ≤ more → givenOut total portions ≤ givenOut more portions
  merge : ∀ merged a b c, Merged portions merged a b c →
    givenTo total merged c = givenTo total portions a + givenTo total portions b

variable {total : Decimal} {portions : List (Uuid × Decimal)}

theorem share_of_le (htotal : 0 ≤ total) {c : Decimal} (hc : c ≤ 100) :
    share total c = ⌈total * c / 100⌉ := by
  have hle : total * c / 100 ≤ total := by
    rw [div_le_iff₀ (by norm_num)]
    exact mul_le_mul_of_nonneg_left hc htotal
  exact min_eq_left (Int.ceil_le_ceil hle)

theorem allocate_eq_slices (hstages : (portions.map Prod.fst).Nodup) (htotal : 0 ≤ total) :
    allocate total portions =
      CumulativeSplit.slices (share total) 0 (share total 0) portions := by
  have hkeys : ((allocateFrom total 0 0 portions).map Prod.fst).Nodup := by
    rw [allocateFrom_slices, CumulativeSplit.keys_slices]
    exact hstages
  rw [share_zero htotal, ← allocateFrom_slices, allocate,
    Dict.foldl_put_of_nodup Prod.fst Prod.snd hkeys]
  simp

theorem total_take_le (hpos : ∀ item ∈ portions, 0 < item.2) (k : ℕ) :
    CumulativeSplit.total (portions.take k) ≤ CumulativeSplit.total portions := by
  have hrest : 0 ≤ ((portions.drop k).map Prod.snd).sum := by
    apply List.sum_nonneg
    intro p hp
    obtain ⟨item, hitem, rfl⟩ := List.mem_map.mp hp
    exact le_of_lt (hpos item (List.mem_of_mem_drop hitem))
  have hsplit : CumulativeSplit.total portions = CumulativeSplit.total (portions.take k) +
      ((portions.drop k).map Prod.snd).sum := by
    rw [CumulativeSplit.total, CumulativeSplit.total, ← List.sum_append, ← List.map_append,
      List.take_append_drop]
  rw [hsplit]
  exact le_add_of_nonneg_right hrest

theorem allocate_take_sum (h : Portions portions) (htotal : 0 ≤ total) (k : ℕ) :
    (((allocate total portions).take k).map Prod.snd).sum =
      ⌈total * CumulativeSplit.total (portions.take k) / 100⌉ := by
  have hnonneg : ∀ item ∈ portions.take k, 0 ≤ item.2 :=
    fun item hitem => le_of_lt (h.positive item (List.mem_of_mem_take hitem))
  rw [allocate_eq_slices h.stages htotal, CumulativeSplit.take_slices,
    CumulativeSplit.sum_slices (share_mono htotal) 0 hnonneg, share_zero htotal, zero_add, sub_zero]
  exact share_of_le htotal (le_trans (total_take_le h.positive k) h.within)

theorem givenOut_eq (h : Portions portions) (htotal : 0 ≤ total) :
    givenOut total portions = ⌈total * CumulativeSplit.total portions / 100⌉ := by
  have hall := allocate_take_sum h htotal portions.length
  have hlength : (allocate total portions).length = portions.length := by
    have hkeys := CumulativeSplit.keys_slices (share total) 0 (share total 0) portions
    rw [← allocate_eq_slices h.stages htotal] at hkeys
    simpa using congrArg List.length hkeys
  rw [← hlength, List.take_length, hlength, List.take_length] at hall
  exact hall

theorem total_eq_hundred_iff (h : Portions portions) : CumulativeSplit.total portions = 100 ↔
    ∀ whole : Decimal, 0 ≤ whole → givenOut whole portions = ⌈whole⌉ := by
  constructor
  · intro hfull whole hwhole
    rw [givenOut_eq h hwhole, hfull, mul_div_cancel_right₀ _ (by norm_num)]
  · intro hall
    -- of a whole of 100 / gap, less than a hundred percent leaves a unit at least
    by_contra hne
    have hgap : 0 < 100 - CumulativeSplit.total portions :=
      sub_pos.mpr (lt_of_le_of_ne h.within hne)
    obtain ⟨n, hn⟩ := exists_nat_gt (100 / (100 - CumulativeSplit.total portions))
    have hwhole := hall n (Nat.cast_nonneg n)
    rw [givenOut_eq h (Nat.cast_nonneg n), Int.ceil_natCast] at hwhole
    have hlt : ((n : ℤ) : Decimal) - 1 < n * CumulativeSplit.total portions / 100 :=
      (Int.ceil_eq_iff.mp hwhole).1
    rw [div_lt_iff₀ hgap] at hn
    rw [Int.cast_natCast, lt_div_iff₀ (by norm_num)] at hlt
    linarith

theorem givenTo_split (htotal : 0 ≤ total) {before after : List (Uuid × Decimal)} {k : Uuid}
    {p : Decimal} (hstages : ((before ++ (k, p) :: after).map Prod.fst).Nodup) (hp : 0 ≤ p) :
    givenTo total (before ++ (k, p) :: after) k =
      share total (CumulativeSplit.total before + p) - share total (CumulativeSplit.total before) := by
  rw [givenTo, find_allocate_split htotal hstages hp]
  rfl

theorem givenTo_merged (h : Portions portions) (htotal : 0 ≤ total)
    {merged : List (Uuid × Decimal)} {a b c : Uuid} (hmerged : Merged portions merged a b c) :
    givenTo total merged c = givenTo total portions a + givenTo total portions b := by
  obtain ⟨⟨before, p, q, after, rfl, rfl⟩, hstages⟩ := hmerged
  have hp : 0 ≤ p := le_of_lt (h.positive (a, p) (by simp))
  have hq : 0 ≤ q := le_of_lt (h.positive (b, q) (by simp))
  have hshift : before ++ (a, p) :: (b, q) :: after = (before ++ [(a, p)]) ++ (b, q) :: after := by
    simp
  have hrunning : CumulativeSplit.total (before ++ [(a, p)]) = CumulativeSplit.total before + p := by
    simp [CumulativeSplit.total]
  have hfirst := givenTo_split htotal h.stages hp
  have hsecond : givenTo total (before ++ (a, p) :: (b, q) :: after) b =
      share total (CumulativeSplit.total before + p + q) -
        share total (CumulativeSplit.total before + p) := by
    rw [hshift, givenTo_split htotal (hshift ▸ h.stages) hq, hrunning]
  rw [givenTo_split htotal hstages (add_nonneg hp hq), hfirst, hsecond, add_assoc]
  ring

/-- `_allocate` neither loses nor invents units. -/
theorem allocate_splitsExactly (htotal : 0 ≤ total) (h : Portions portions) :
    SplitsExactly total portions := by
  have hreached := givenOut_eq h htotal
  have hslices := allocate_eq_slices h.stages htotal
  refine ⟨?_, ?_, allocate_take_sum h htotal, ?_, ?_, total_eq_hundred_iff h, ?_,
    fun merged a b c => givenTo_merged h htotal⟩
  · rw [hslices]
    exact CumulativeSplit.keys_slices ..
  · rw [hslices]
    exact CumulativeSplit.slices_nonneg _ _ _ _
  · rw [hreached, ← share_of_le htotal h.within]
    exact min_le_right _ _
  · rw [hreached]
  · intro more hmore
    rw [hreached, givenOut_eq h (le_trans htotal hmore)]
    have hwhole : 0 ≤ CumulativeSplit.total portions := by
      simpa [CumulativeSplit.total] using total_take_le h.positive 0
    exact Int.ceil_le_ceil (div_le_div_of_nonneg_right
      (mul_le_mul_of_nonneg_right hmore hwhole) (by norm_num))

/-- 103 units over a quarter, a half and a quarter. -/
theorem allocate_splitsExactly_sample :
    allocate 103 [(1, 25), (2, 50), (3, 25)] = [(1, 26), (2, 52), (3, 25)] ∧
      SplitsExactly 103 [(1, 25), (2, 50), (3, 25)] := by
  refine ⟨by decide +kernel, allocate_splitsExactly (by norm_num) ⟨by decide, ?_, ?_⟩⟩
  · simp
  · norm_num [CumulativeSplit.total]

end StockManager
