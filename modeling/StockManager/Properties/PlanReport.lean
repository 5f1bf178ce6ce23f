import StockManager.Properties.OptimalPlan

/-! # What a plan reports as unfilled

A row that needs nothing has no candidates either, and `_unfilled_selection` stands for
both. -/

namespace StockManager

/-- The row needs something that none of its offers can supply. -/
def CannotBeFilled (moqOverbuyCap : Option ℤ) (row : SourcingBomLineOut) : Prop :=
  1 ≤ row.shortBy ∧ ∀ offer, ¬ Feasible moqOverbuyCap row offer

/-- The outcome, and the plan stored from it, are incomplete exactly when something
needed cannot be bought. -/
structure CountedTruly (casefold : String → String) (args : OptimizerArgs)
    (rows : List SourcingBomLineOut) (plan : OptimizerOutcome) : Prop where
  once : plan.unfilledLines.Nodup
  unfilled : ∀ id, id ∈ plan.unfilledLines ↔
    ∃ row ∈ rows, row.projectEntryId = id ∧ CannotBeFilled args.moqOverbuyCap row
  filled : (∀ row ∈ rows, ¬ CannotBeFilled args.moqOverbuyCap row) →
    plan.estTotalCost = some (plan.selections.map selectionCost).sum
  short : (∃ row ∈ rows, CannotBeFilled args.moqOverbuyCap row) → plan.estTotalCost = none
  counted : ∀ newId planLines,
    planLines.Perm ((purchasePlanLinesFromSelections newId plan.selections rows).map
      PurchasePlanLine.stored) →
    (purchasePlanToOut casefold planLines).unfilledCount = plan.unfilledLines.length

/-- The stored plan names the outcome's total as well. -/
structure ReportedTruly (casefold : String → String) (args : OptimizerArgs)
    (rows : List SourcingBomLineOut) (plan : OptimizerOutcome) : Prop
    extends CountedTruly casefold args rows plan where
  total : ∀ newId planLines,
    planLines.Perm ((purchasePlanLinesFromSelections newId plan.selections rows).map
      PurchasePlanLine.stored) →
    (purchasePlanToOut casefold planLines).estTotalCost = plan.estTotalCost

/-- What the rounding of the selected price to six decimals adds to the cost of a selection. -/
def roundingGain (s : OptimizerSelection) : Decimal :=
  s.selectedUnitPrice.elim 0 fun price => (numericColumn price - price) * s.selectedQty

/-- Where nothing is unfilled, rounding the selected prices adds nothing to the total. -/
def RoundingCancels (plan : OptimizerOutcome) : Prop :=
  plan.unfilledLines = [] → (plan.selections.map roundingGain).sum = 0

/-- The selected prices have six decimals at most. -/
def SelectedFit (plan : OptimizerOutcome) : Prop :=
  ∀ s ∈ plan.selections, ∀ price ∈ s.selectedUnitPrice, (price * 1000000).den = 1

variable {casefold : String → String} {args : OptimizerArgs} {rows : List SourcingBomLineOut}

theorem numericColumn_of_fits {d : Decimal} (h : (d * 1000000).den = 1) : numericColumn d = d := by
  obtain ⟨n, hn⟩ : ∃ n : ℤ, d * 1000000 = n := ⟨_, (Rat.den_eq_one_iff _).mp h |>.symm⟩
  have hfloor : ⌊(n : Decimal) + 1 / 2⌋ = n := by
    rw [Int.floor_eq_iff]
    constructor <;> linarith
  have hceil : ⌈(n : Decimal) - 1 / 2⌉ = n := by
    rw [Int.ceil_eq_iff]
    constructor <;> linarith
  have hcolumn : numericColumn d = (n : Decimal) / 1000000 := by
    unfold numericColumn
    rw [hn, hfloor, hceil, ite_self]
  rw [hcolumn, ← hn, mul_div_cancel_right₀ _ (by norm_num)]

theorem roundingCancels_of_fit {plan : OptimizerOutcome} (h : SelectedFit plan) :
    RoundingCancels plan := by
  intro _
  refine List.sum_eq_zero fun gain hgain => ?_
  obtain ⟨s, hs, rfl⟩ := List.mem_map.mp hgain
  unfold roundingGain
  cases hprice : s.selectedUnitPrice with
  | none => rfl
  | some price =>
    rw [Option.elim_some, numericColumn_of_fits (h s hs price hprice), sub_self, zero_mul]

def OptimizerSelection.stored (s : OptimizerSelection) : OptimizerSelection :=
  { s with selectedUnitPrice := s.selectedUnitPrice.map numericColumn }

theorem selectionCost_stored (s : OptimizerSelection) :
    selectionCost s.stored = selectionCost s + roundingGain s := by
  unfold selectionCost roundingGain OptimizerSelection.stored
  cases s.selectedUnitPrice with
  | none => simp
  | some price =>
    simp only [Option.map_some, Option.elim_some]
    ring

theorem storedCosts_sum (selections : List OptimizerSelection) :
    ((selections.map OptimizerSelection.stored).map selectionCost).sum =
      (selections.map selectionCost).sum + (selections.map roundingGain).sum := by
  rw [List.map_map, ← List.sum_map_add]
  exact congrArg List.sum (List.map_congr_left fun s _ => selectionCost_stored s)

theorem stored_distributors (newId : ℕ → Uuid) (selections : List OptimizerSelection) :
    ((purchasePlanLinesFromSelections newId selections rows).map
      PurchasePlanLine.stored).map (·.selectedDistributor) =
        selections.map (·.selectedDistributor) := by
  unfold purchasePlanLinesFromSelections
  rw [List.map_map, List.map_map]
  have hfst : selections.map (·.selectedDistributor) =
      (selections.zipIdx.map Prod.fst).map (·.selectedDistributor) := by rw [List.zipIdx_map_fst]
  rw [hfst, List.map_map]
  rfl

theorem stored_costs (newId : ℕ → Uuid) (selections : List OptimizerSelection) :
    ((purchasePlanLinesFromSelections newId selections rows).map PurchasePlanLine.stored).filterMap
        (fun line => line.selectedUnitPrice.map fun price =>
          price * (line.selectedQty.getD 0 : Decimal)) =
      (selections.map OptimizerSelection.stored).filterMap fun s =>
        s.selectedUnitPrice.map fun price => price * (s.selectedQty : Decimal) := by
  have hfst : selections = selections.zipIdx.map Prod.fst := (List.zipIdx_map_fst ..).symm
  conv_rhs => rw [hfst]
  unfold purchasePlanLinesFromSelections
  rw [List.map_map, List.map_map, List.filterMap_map, List.filterMap_map]
  refine List.filterMap_congr fun item _ => ?_
  cases hprice : item.1.selectedUnitPrice with
  | none => simp [PurchasePlanLine.stored, purchasePlanLine, OptimizerSelection.stored, hprice]
  | some price =>
    simp [PurchasePlanLine.stored, purchasePlanLine, OptimizerSelection.stored, hprice]

variable (casefold) in
theorem purchasePlanToOut_unfilled (planLines : List PurchasePlanLine) :
    (purchasePlanToOut casefold planLines).unfilledCount =
      (planLines.map (·.selectedDistributor)).count none := by
  have hperm := List.perm_insertionSort
    (fun a b : PurchasePlanLine => a.sortKey casefold ≤ b.sortKey casefold) planLines
  simp only [purchasePlanToOut]
  rw [hperm.countP_eq, List.count, List.countP_map]
  apply List.countP_congr
  intro line _
  simp

theorem purchasePlanToOut_total (planLines : List PurchasePlanLine) :
    (purchasePlanToOut casefold planLines).estTotalCost =
      if (planLines.map (·.selectedDistributor)).count none ≠ 0 then none
      else some ((planLines.filterMap fun line => line.selectedUnitPrice.map fun price =>
        price * (line.selectedQty.getD 0 : Decimal)).sum) := by
  have hperm := List.perm_insertionSort
    (fun a b : PurchasePlanLine => a.sortKey casefold ≤ b.sortKey casefold) planLines
  have hcount := purchasePlanToOut_unfilled casefold planLines
  simp only [purchasePlanToOut] at hcount ⊢
  rw [hcount, (hperm.filterMap _).sum_eq]

theorem unfilledLines_eq {selections : List OptimizerSelection}
    (h : List.Forall₂ (fun row s => RowSettled casefold args.moqOverbuyCap row s ∧
      (s.selectedDistributor = none → candidates casefold args.moqOverbuyCap row = []))
      rows selections) :
    (outcome casefold selections).unfilledLines =
      (rows.filter fun row => (candidates casefold args.moqOverbuyCap row).isEmpty).map
        (·.projectEntryId) := by
  simp only [outcome]
  induction h with
  | nil => rfl
  | @cons row s rows selections hrow _ ih =>
    obtain ⟨hset, hfree⟩ := hrow
    rcases hset with rfl | ⟨c, hc, rfl⟩
    · have hnil := hfree rfl
      rw [List.filter_cons_of_pos (by simp [unfilledSelection]),
        List.filter_cons_of_pos (by simp [hnil]), List.map_cons, List.map_cons, ih]
      rfl
    · have hne : ¬ (candidates casefold args.moqOverbuyCap row).isEmpty := by
        intro hempty
        rw [List.isEmpty_iff.mp hempty] at hc
        cases hc
      have hrest : (row :: rows).filter (fun row =>
          (candidates casefold args.moqOverbuyCap row).isEmpty) = rows.filter fun row =>
            (candidates casefold args.moqOverbuyCap row).isEmpty := List.filter_cons_of_neg hne
      rw [List.filter_cons_of_neg (by simp [selectionFromCandidate]), hrest, ih]

theorem settled_unfilledLines (hids : (rows.map (·.projectEntryId)).Nodup)
    (hmax : args.maxDistributors = none) :
    (outcome casefold (selectionsOf casefold args (sortedRows rows))).unfilledLines =
      ((sortedRows rows).filter fun row =>
        (candidates casefold args.moqOverbuyCap row).isEmpty).map (·.projectEntryId) :=
  unfilledLines_eq <| (selectionsOf_settled casefold args (sortedRows_nodup hids)).imp
    fun _ _ hs => ⟨hs.1, hs.2 (.inr hmax)⟩

theorem outcome_unfilled (selections : List OptimizerSelection) :
    (outcome casefold selections).unfilledLines.length =
      (selections.map (·.selectedDistributor)).count none := by
  simp only [outcome, List.length_map]
  rw [← List.countP_eq_length_filter, List.count, List.countP_map]
  apply List.countP_congr
  intro s _
  simp

theorem outcome_total (selections : List OptimizerSelection) :
    (outcome casefold selections).estTotalCost =
      if (outcome casefold selections).unfilledLines ≠ [] then none
      else some (selections.map selectionCost).sum := by
  have hcosts := selectionCosts_sum selections
  simp only [outcome, ne_eq, List.map_eq_nil_iff, hcosts]
  split_ifs <;> rfl

theorem stored_count (newId : ℕ → Uuid) {selections : List OptimizerSelection}
    {planLines : List PurchasePlanLine}
    (hlines : planLines.Perm ((purchasePlanLinesFromSelections newId selections rows).map
      PurchasePlanLine.stored)) :
    (planLines.map (·.selectedDistributor)).count none =
      (outcome casefold selections).unfilledLines.length := by
  rw [(hlines.map _).count_eq, stored_distributors, outcome_unfilled]

theorem stored_total (newId : ℕ → Uuid) {selections : List OptimizerSelection}
    {planLines : List PurchasePlanLine}
    (hlines : planLines.Perm ((purchasePlanLinesFromSelections newId selections rows).map
      PurchasePlanLine.stored)) :
    (purchasePlanToOut casefold planLines).estTotalCost =
        (outcome casefold selections).estTotalCost ↔
      RoundingCancels (outcome casefold selections) := by
  rw [purchasePlanToOut_total, stored_count newId hlines, (hlines.filterMap _).sum_eq,
    stored_costs, selectionCosts_sum, storedCosts_sum, outcome_total]
  unfold RoundingCancels
  simp only [ne_eq, List.length_eq_zero_iff]
  by_cases hnil : (outcome casefold selections).unfilledLines = []
  · rw [if_neg (not_not.mpr hnil), if_neg (not_not.mpr hnil), Option.some.injEq, add_eq_left]
    exact ⟨fun h _ => h, fun h => h hnil⟩
  · rw [if_pos hnil, if_pos hnil]
    exact ⟨fun _ h => absurd h hnil, fun _ => rfl⟩

variable (casefold) in
/-- Every row without a candidate is unfilled, also one that is not short. -/
theorem mem_unfilledLines (hids : (rows.map (·.projectEntryId)).Nodup)
    (hmax : args.maxDistributors = none) {id : Uuid} :
    id ∈ (outcome casefold (selectionsOf casefold args (sortedRows rows))).unfilledLines ↔
      ∃ row ∈ rows, row.projectEntryId = id ∧
        (row.shortBy < 1 ∨ CannotBeFilled args.moqOverbuyCap row) := by
  have hperm : (sortedRows rows).Perm rows := List.perm_insertionSort _ rows
  rw [settled_unfilledLines hids hmax]
  simp only [List.mem_map, List.mem_filter, List.isEmpty_iff, hperm.mem_iff, candidates_eq_nil,
    CannotBeFilled]
  constructor
  · rintro ⟨row, ⟨hrow, hcannot⟩, hid⟩
    refine ⟨row, hrow, hid, ?_⟩
    rcases lt_or_ge row.shortBy 1 with hlt | hge
    · exact .inl hlt
    · exact .inr ⟨hge, hcannot.resolve_left (by omega)⟩
  · rintro ⟨row, hrow, hid, hcannot⟩
    exact ⟨row, ⟨hrow, hcannot.imp_right And.right⟩, hid⟩

variable (casefold) in
theorem countedTruly_iff (hids : (rows.map (·.projectEntryId)).Nodup)
    (hmax : args.maxDistributors = none) :
    CountedTruly casefold args rows
        (outcome casefold (selectionsOf casefold args (sortedRows rows))) ↔
      ∀ row ∈ rows, 1 ≤ row.shortBy := by
  constructor
  · intro htruly row hrow
    by_contra hnone
    have hin := (mem_unfilledLines casefold hids hmax).mpr ⟨row, hrow, rfl, .inl (by omega)⟩
    obtain ⟨row', hrow', hid, hcannot⟩ := (htruly.unfilled _).mp hin
    obtain rfl : row' = row := List.inj_on_of_nodup_map hids hrow' hrow hid
    exact hnone hcannot.1
  · intro hall
    have hunfilled : ∀ id, id ∈ (outcome casefold
        (selectionsOf casefold args (sortedRows rows))).unfilledLines ↔
          ∃ row ∈ rows, row.projectEntryId = id ∧ CannotBeFilled args.moqOverbuyCap row := by
      intro id
      rw [mem_unfilledLines casefold hids hmax]
      refine exists_congr fun row => and_congr_right fun hrow => and_congr_right fun _ => ?_
      exact or_iff_right (not_lt.mpr (hall row hrow))
    refine ⟨?_, hunfilled, ?_, ?_, fun newId planLines hstored => ?_⟩
    · rw [settled_unfilledLines hids hmax]
      exact (sortedRows_nodup hids).sublist (List.filter_sublist.map _)
    · intro hfilled
      have hnil : (outcome casefold
          (selectionsOf casefold args (sortedRows rows))).unfilledLines = [] := by
        rw [List.eq_nil_iff_forall_not_mem]
        intro id hid
        obtain ⟨row, hrow, _, hcannot⟩ := (hunfilled id).mp hid
        exact hfilled row hrow hcannot
      rw [outcome_total, if_neg (not_not.mpr hnil)]
      rfl
    · rintro ⟨row, hrow, hcannot⟩
      have hin := (hunfilled row.projectEntryId).mpr ⟨row, hrow, rfl, hcannot⟩
      rw [outcome_total, if_pos (List.ne_nil_of_mem hin)]
    · rw [purchasePlanToOut_unfilled, stored_count newId hstored]
      rfl

/-- For every BOM with distinct entries and every strategy without a distributor limit: the
unfilled lines, the total and the stored count are true exactly when every row is short, and the
stored total as well exactly when the rounding of the selected prices cancels, as it does where
they fit the column. -/
theorem plan_reportedTruly (casefold : String → String) {args : OptimizerArgs}
    {rows : List SourcingBomLineOut} {plan : OptimizerOutcome}
    (hids : (rows.map (·.projectEntryId)).Nodup) (hmax : args.maxDistributors = none)
    (h : optimize casefold rows args = .ok plan) :
    (CountedTruly casefold args rows plan ↔ ∀ row ∈ rows, 1 ≤ row.shortBy) ∧
      (ReportedTruly casefold args rows plan ↔
        (∀ row ∈ rows, 1 ≤ row.shortBy) ∧ RoundingCancels plan) ∧
      (SelectedFit plan → RoundingCancels plan) := by
  simp only [optimize, Outcome.bind_ok, Outcome.check_ok, Outcome.pure_ok] at h
  obtain ⟨_, _, _, _, rfl⟩ := h
  have hcounted := countedTruly_iff casefold hids hmax
  refine ⟨hcounted, ⟨fun htruly => ⟨hcounted.mp htruly.toCountedTruly, ?_⟩, ?_⟩,
    roundingCancels_of_fit⟩
  · exact (stored_total id (List.Perm.refl _)).mp (htruly.total id _ (List.Perm.refl _))
  · rintro ⟨hall, hcancels⟩
    exact ⟨hcounted.mpr hall, fun newId planLines hstored =>
      (stored_total newId hstored).mpr hcancels⟩

/-- Ten washers are short and can be bought, and nothing else is needed. -/
theorem plan_reportedTruly_sample : ∃ plan,
    optimize id [washerRow] ⟨.fewestDistributors, [], none, some 100, 5⟩ = .ok plan ∧
      ReportedTruly id ⟨.fewestDistributors, [], none, some 100, 5⟩ [washerRow] plan := by
  have hok : optimize id [washerRow] ⟨.fewestDistributors, [], none, some 100, 5⟩ = .ok _ :=
    optimize_ok [washerRow] (by decide) (by decide)
  have htruly := plan_reportedTruly id (by decide) rfl hok
  refine ⟨_, hok, htruly.2.1.mpr ⟨by decide, htruly.2.2 ?_⟩⟩
  unfold SelectedFit
  decide +kernel

/-- Washers that are short, and a part the stock covers: the plan buys all that is needed
and says that a line is unfilled and the cost unknown. -/
theorem covered_row_unfilled : ∃ plan,
    optimize id [washerRow, { washerRow with projectEntryId := 2, shortBy := 0 }]
      ⟨.lowestTotalPrice, [], none, none, 5⟩ = .ok plan ∧
    plan.unfilledLines = [2] ∧ plan.estTotalCost = none ∧
    ¬ CountedTruly id ⟨.lowestTotalPrice, [], none, none, 5⟩
      [washerRow, { washerRow with projectEntryId := 2, shortBy := 0 }] plan := by
  have hok : optimize id [washerRow, { washerRow with projectEntryId := 2, shortBy := 0 }]
      ⟨.lowestTotalPrice, [], none, none, 5⟩ = .ok _ := optimize_ok _ (by decide) (by decide)
  refine ⟨_, hok, by decide +kernel, by decide +kernel, ?_⟩
  intro htruly
  obtain ⟨row, hrow, hid, hshort, _⟩ := (htruly.unfilled 2).mp (by decide +kernel)
  have hcovered : ∀ row ∈ [washerRow, { washerRow with projectEntryId := 2, shortBy := 0 }],
      row.projectEntryId = 2 → row.shortBy = 0 := by decide
  have hzero := hcovered row hrow hid
  omega

end StockManager
