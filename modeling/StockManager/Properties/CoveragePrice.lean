import StockManager.Model.Coverage
import StockManager.Properties.OptimalPlan

/-! # Coverage and optimizer on price

`_combo_total_cost` prices each distributor by the offer that is cheapest per
unit, the optimizer each row by the offer that is cheapest in total. The two
agree exactly when, for every row, one of the plan's distributors has the
cheapest offer first by unit price. -/

namespace StockManager

variable {offer : SourcingBomOfferOut}

/-- No offer carries a converted price. -/
def NativeOnly (rows : List SourcingBomLineOut) : Prop :=
  ∀ row ∈ rows, ∀ offer ∈ row.offers,
    offer.unitPriceConverted = none ∧ offer.priceBreaksConverted = none

/-- A short row that some offer can fill. -/
def Fillable (row : SourcingBomLineOut) : Prop :=
  1 ≤ row.shortBy ∧ ∃ offer, Feasible none row offer

/-- The offer costs no more than any other that fills the row. -/
def CheapestOffer (row : SourcingBomLineOut) (offer : SourcingBomOfferOut) : Prop :=
  ∃ qty price, Purchasable none row offer qty price ∧
    ∀ offer' qty' price', Purchasable none row offer' qty' price' → price * qty ≤ price' * qty'

section Casefold

variable (casefold : String → String)

/-- The first of the cheapest offers in the alphabet. -/
def FirstCheapest (row : SourcingBomLineOut) (offer : SourcingBomOfferOut) : Prop :=
  CheapestOffer row offer ∧
    ∀ offer', CheapestOffer row offer' → alphaKey casefold offer ≤ alphaKey casefold offer'

/-- Of its distributor's offers in stock for the row, the first by unit price,
lead time and MPN. -/
def CheapestPerUnit (row : SourcingBomLineOut) (offer : SourcingBomOfferOut) : Prop :=
  (row.offers.filter fun o => casefold o.distributor = casefold offer.distributor ∧
      selectedQty row.shortBy o.moq ≤ o.stock).argmin
    (fun o => (toLex (priceSortValue (unitPrice o (selectedQty row.shortBy o.moq)),
      toLex (o.leadTimeDays.getD infiniteLeadTimeDays, casefold o.mpn)) :
        WithTop Decimal ×ₗ ℕ ×ₗ String)) = some offer

/-- For every row that can be filled, a distributor that the plan uses has a
cheapest offer that is also its cheapest per unit. -/
def UnitPricesAgree (rows : List SourcingBomLineOut) : Prop :=
  ∀ row ∈ rows, Fillable row → ∃ offer, CheapestOffer row offer ∧
    CheapestPerUnit casefold row offer ∧
    ∃ row' ∈ rows, 1 ≤ row'.shortBy ∧ ∃ offer', FirstCheapest casefold row' offer' ∧
      casefold offer'.distributor = casefold offer.distributor

/-- The distributors have a priced offer for every row that can be filled. -/
def Supplies (combo : List String) (rows : List SourcingBomLineOut) : Prop :=
  ∀ row ∈ rows, Fillable row → ∃ offer, Feasible none row offer ∧ casefold offer.distributor ∈ combo

/-- The coverage total is what the optimizer's selections cost (null when it
fills nothing), and no set of distributors that supplies the rows costs less. -/
def PricesAgree (rows : List SourcingBomLineOut) : Prop :=
  ∃ matrix plan, computeCoverage casefold rows = .ok matrix ∧
    optimize casefold rows lowestTotalPriceArgs = .ok plan ∧
    matrix.lowestTotalPriceTotal =
      (if ∀ s ∈ plan.selections, s.selectedDistributor = none then none
        else some (plan.selections.map selectionCost).sum) ∧
    ∀ combo, Supplies casefold combo rows → ∀ total, matrix.lowestTotalPriceTotal = some total →
      ∃ cost, comboTotalCost casefold combo rows = some cost ∧ total ≤ cost

end Casefold

variable {casefold : String → String} {rows : List SourcingBomLineOut} {row : SourcingBomLineOut}
  {combo : List String}

theorem coverageSelectedQty_short (h : 1 ≤ row.shortBy) (moq : Option ℤ) :
    coverageSelectedQty row.shortBy moq = selectedQty row.shortBy moq := by
  have hpos : ¬ row.shortBy ≤ 0 := by omega
  rw [coverageSelectedQty, if_neg hpos]
  rfl

theorem bestPurchaseableOffer_short (hnative : NativeOnly rows) (hrow : row ∈ rows)
    (hshort : 1 ≤ row.shortBy) {key : String} :
    bestPurchaseableOffer casefold key row = some offer ↔
      casefold offer.distributor = key ∧ CheapestPerUnit casefold row offer := by
  have hkey : ∀ key, bestPurchaseableOffer casefold key row =
      (row.offers.filter fun o => casefold o.distributor = key ∧
        selectedQty row.shortBy o.moq ≤ o.stock).argmin
      (fun o => (toLex (priceSortValue (unitPrice o (selectedQty row.shortBy o.moq)),
        toLex (o.leadTimeDays.getD infiniteLeadTimeDays, casefold o.mpn)) :
          WithTop Decimal ×ₗ ℕ ×ₗ String)) := by
    intro key
    simp only [bestPurchaseableOffer, bestOfferForQuantity, coverageSelectedQty_short hshort]
    apply FirstMin.argmin_congr
    intro o ho
    rw [offerKey, offerUnitPrice_native (hnative row hrow o (List.mem_of_mem_filter ho))]
  rw [hkey]
  constructor
  · intro h
    have hmem := (List.mem_filter.mp (FirstMin.argmin_spec h).1).2
    have hname : casefold offer.distributor = key := (of_decide_eq_true hmem).1
    refine ⟨hname, ?_⟩
    unfold CheapestPerUnit
    rw [hname]
    exact h
  · rintro ⟨rfl, h⟩
    exact h

theorem cheapestPerUnit_mem (h : CheapestPerUnit casefold row offer) :
    offer ∈ row.offers ∧ selectedQty row.shortBy offer.moq ≤ offer.stock := by
  obtain ⟨hmem, hstock⟩ := List.mem_filter.mp (FirstMin.argmin_spec h).1
  exact ⟨hmem, (of_decide_eq_true hstock).2⟩

theorem selectedQty_pos (hshort : 1 ≤ row.shortBy) (moq : Option ℤ) :
    1 ≤ selectedQty row.shortBy moq := le_trans hshort (le_max_left _ _)

/-- A price a set of distributors has for a short row is the extended cost of an
offer that is cheapest per unit. -/
theorem mem_pricedCosts (hnative : NativeOnly rows) (hrow : row ∈ rows) (hshort : 1 ≤ row.shortBy)
    {cost : Decimal} : cost ∈ pricedCosts casefold combo row ↔
      ∃ offer qty price, casefold offer.distributor ∈ combo ∧ CheapestPerUnit casefold row offer ∧
        Purchasable none row offer qty price ∧ cost = price * qty := by
  have hextended : ∀ offer ∈ row.offers, offerExtendedCost offer
      (coverageSelectedQty row.shortBy offer.moq) =
        (unitPrice offer (selectedQty row.shortBy offer.moq)).map fun price =>
          price * (selectedQty row.shortBy offer.moq : Decimal) := by
    intro offer hoffer
    have hpos := selectedQty_pos hshort offer.moq
    rw [offerExtendedCost, coverageSelectedQty_short hshort, if_neg (by omega),
      offerUnitPrice_native (hnative row hrow offer hoffer)]
  unfold pricedCosts
  simp only [List.mem_filterMap, List.mem_dedup, Option.bind_eq_some_iff,
    bestPurchaseableOffer_short hnative hrow hshort]
  constructor
  · rintro ⟨_, hkey, offer, ⟨rfl, hunit⟩, hcost⟩
    obtain ⟨hmem, hstock⟩ := cheapestPerUnit_mem hunit
    rw [hextended offer hmem, Option.map_eq_some_iff] at hcost
    obtain ⟨price, hprice, rfl⟩ := hcost
    exact ⟨offer, _, price, hkey, hunit, ⟨hmem, rfl, by simp, hstock, hprice⟩, rfl⟩
  · rintro ⟨offer, _, price, hkey, hunit, ⟨hmem, rfl, _, _, hprice⟩, rfl⟩
    refine ⟨_, hkey, offer, ⟨rfl, hunit⟩, ?_⟩
    rw [hextended offer hmem, hprice]
    rfl

theorem exists_cheapestPerUnit (casefold : String → String) (h : Feasible none row offer) :
    ∃ best qty price, casefold best.distributor = casefold offer.distributor ∧
      CheapestPerUnit casefold row best ∧ Purchasable none row best qty price := by
  obtain ⟨_, price, hp⟩ := h
  have hstock := hp.inStock
  rw [hp.qty_eq] at hstock
  have hmem : offer ∈ row.offers.filter fun o => casefold o.distributor =
      casefold offer.distributor ∧ selectedQty row.shortBy o.moq ≤ o.stock :=
    List.mem_filter.mpr ⟨hp.inRow, by simpa using hstock⟩
  obtain ⟨best, hbest⟩ := FirstMin.exists_argmin (List.ne_nil_of_mem hmem)
    (f := fun o => (toLex (priceSortValue (unitPrice o (selectedQty row.shortBy o.moq)),
      toLex (o.leadTimeDays.getD infiniteLeadTimeDays, casefold o.mpn)) :
        WithTop Decimal ×ₗ ℕ ×ₗ String))
  obtain ⟨hin, hleast⟩ := FirstMin.argmin_spec hbest
  obtain ⟨hoffer, hname, hbestStock⟩ : best ∈ row.offers ∧
      casefold best.distributor = casefold offer.distributor ∧
        selectedQty row.shortBy best.moq ≤ best.stock := by
    simpa using hin
  have hpriced : ∃ p, unitPrice best (selectedQty row.shortBy best.moq) = some p := by
    cases hnone : unitPrice best (selectedQty row.shortBy best.moq) with
    | some p => exact ⟨p, rfl⟩
    | none =>
      have hle := hleast offer hmem
      have hofferPrice := hp.priced
      rw [hp.qty_eq] at hofferPrice
      rw [hnone, hofferPrice] at hle
      have hfirst : (⊤ : WithTop Decimal) ≤ (price : WithTop Decimal) := by
        rcases Prod.Lex.le_iff.mp hle with hlt | ⟨heq, _⟩
        · exact le_of_lt hlt
        · exact le_of_eq heq
      exact absurd (top_le_iff.mp hfirst) (WithTop.coe_ne_top)
  obtain ⟨p, hp'⟩ := hpriced
  refine ⟨best, _, p, hname, ?_, ⟨hoffer, rfl, by simp, hbestStock, hp'⟩⟩
  unfold CheapestPerUnit
  rw [hname]
  exact hbest

def leastCost (casefold : String → String) (row : SourcingBomLineOut) : Decimal :=
  selectionCost (selectLowestTotalPrice casefold none row)

def comboCost (casefold : String → String) (combo : List String) (row : SourcingBomLineOut) :
    Decimal :=
  ((pricedCosts casefold combo row).min?).getD 0

theorem candidates_of_not_fillable (h : ¬ Fillable row) : candidates casefold none row = [] := by
  rw [candidates_eq_nil]
  by_cases hshort : row.shortBy < 1
  · exact .inl hshort
  · right
    intro offer hoffer
    exact h ⟨by omega, offer, hoffer⟩

theorem leastCost_of_not_fillable (h : ¬ Fillable row) : leastCost casefold row = 0 := by
  unfold leastCost selectLowestTotalPrice
  rw [candidates_of_not_fillable h]
  rfl

theorem comboCost_of_not_fillable (hnative : NativeOnly rows) (hrow : row ∈ rows)
    (h : ¬ Fillable row) : comboCost casefold combo row = 0 := by
  have hzero : ∀ cost ∈ pricedCosts casefold combo row, cost = 0 := by
    intro cost hcost
    by_cases hshort : 1 ≤ row.shortBy
    · obtain ⟨offer, qty, price, _, _, hp, _⟩ := (mem_pricedCosts hnative hrow hshort).mp hcost
      exact absurd ⟨hshort, offer, qty, price, hp⟩ h
    · obtain ⟨_, _, hbest⟩ := List.mem_filterMap.mp hcost
      obtain ⟨offer, _, hextended⟩ := Option.bind_eq_some_iff.mp hbest
      rw [coverageSelectedQty, if_pos (by omega), offerExtendedCost, if_pos le_rfl] at hextended
      exact (Option.some.inj hextended).symm
  unfold comboCost
  cases hmin : (pricedCosts casefold combo row).min? with
  | none => rfl
  | some cost => exact hzero cost (List.min?_mem hmin)

theorem leastCost_offer (casefold : String → String) (h : Fillable row) :
    ∃ offer, FirstCheapest casefold row offer ∧
      (selectLowestTotalPrice casefold none row).selectedDistributor = some offer.distributor ∧
      ∀ qty price, Purchasable none row offer qty price → leastCost casefold row = price * qty := by
  obtain ⟨hshort, offer, qty, price, hp⟩ := h
  have hmem : (⟨row, offer, qty, price, price * qty⟩ : Candidate) ∈ candidates casefold none row :=
    mem_candidates.mpr ⟨hshort, rfl, hp, rfl⟩
  obtain ⟨c, hc⟩ : ∃ c, (candidates casefold none row).argmin (lowestPriceKey casefold) = some c :=
    FirstMin.exists_argmin (List.ne_nil_of_mem hmem)
  obtain ⟨hin, hleast⟩ := FirstMin.argmin_spec hc
  obtain ⟨_, _, hcp, hcost⟩ := mem_candidates.mp hin
  have hkey : ∀ offer' qty' price', Purchasable none row offer' qty' price' →
      c.unitPrice * c.selectedQty < price' * qty' ∨ c.unitPrice * c.selectedQty = price' * qty' ∧
        alphaKey casefold c.offer ≤ alphaKey casefold offer' := by
    intro offer' qty' price' hp'
    have hle := hleast ⟨row, offer', qty', price', price' * qty'⟩
      (mem_candidates.mpr ⟨hshort, rfl, hp', rfl⟩)
    have hlex := Prod.Lex.le_iff.mp hle
    rw [← hcost]
    exact hlex
  have hcheapest : ∀ offer' qty' price', Purchasable none row offer' qty' price' →
      c.unitPrice * c.selectedQty ≤ price' * qty' := by
    intro offer' qty' price' hp'
    rcases hkey offer' qty' price' hp' with hlt | ⟨heq, _⟩
    · exact le_of_lt hlt
    · exact le_of_eq heq
  have hselected : selectLowestTotalPrice casefold none row = selectionFromCandidate c := by
    rw [selectLowestTotalPrice, hc]
    rfl
  refine ⟨c.offer, ⟨⟨c.selectedQty, c.unitPrice, hcp, hcheapest⟩, ?_⟩, ?_, ?_⟩
  · rintro offer' ⟨qty', price', hp', hleast'⟩
    rcases hkey offer' qty' price' hp' with hlt | ⟨_, hle⟩
    · exact absurd (hleast' _ _ _ hcp) (not_le.mpr hlt)
    · exact hle
  · rw [hselected]
    rfl
  · intro qty' price' hp'
    have hqty : qty' = c.selectedQty := by rw [hp'.qty_eq, hcp.qty_eq]
    have hprice : some price' = some c.unitPrice := by rw [← hp'.priced, hqty, hcp.priced]
    rw [leastCost, hselected, hqty, Option.some.inj hprice]
    rfl

theorem leastCost_le (h : 1 ≤ row.shortBy) {qty : ℤ}
    {price : Decimal} (hp : Purchasable none row offer qty price) :
    leastCost casefold row ≤ price * qty := by
  have hpick : FeasiblePick none row (some ⟨offer, qty, price⟩) := ⟨h, hp⟩
  exact selectLowest_least hpick

theorem cheapestOffer_iff (h : 1 ≤ row.shortBy) {qty : ℤ}
    {price : Decimal} (hp : Purchasable none row offer qty price) :
    CheapestOffer row offer ↔ leastCost casefold row = price * qty := by
  obtain ⟨best, ⟨⟨bestQty, bestPrice, hbest, hleast⟩, _⟩, _, hcost⟩ :=
    leastCost_offer casefold ⟨h, offer, qty, price, hp⟩
  have hbestCost := hcost _ _ hbest
  constructor
  · rintro ⟨qty', price', hp', hleast'⟩
    have hqty : qty' = qty := by rw [hp'.qty_eq, hp.qty_eq]
    have hprice : some price' = some price := by rw [← hp'.priced, hqty, hp.priced]
    rw [hqty, Option.some.inj hprice] at hleast'
    apply le_antisymm (leastCost_le h hp)
    rw [hbestCost]
    exact hleast' _ _ _ hbest
  · intro heq
    refine ⟨qty, price, hp, ?_⟩
    rw [← heq, hbestCost]
    exact hleast

/-- A set that supplies the row asks for at least what the optimizer pays, and for
no more exactly when one of its distributors has a cheapest offer first. -/
theorem comboCost_supplied (hnative : NativeOnly rows) (hrow : row ∈ rows) (hfill : Fillable row)
    (hsupplied : ∃ offer, Feasible none row offer ∧ casefold offer.distributor ∈ combo) :
    ((pricedCosts casefold combo row).min? ≠ none) ∧
    leastCost casefold row ≤ comboCost casefold combo row ∧
    (leastCost casefold row = comboCost casefold combo row ↔ ∃ offer, CheapestOffer row offer ∧
      CheapestPerUnit casefold row offer ∧ casefold offer.distributor ∈ combo) := by
  have hshort := hfill.1
  have hmem : ∀ cost, cost ∈ pricedCosts casefold combo row ↔ _ :=
    fun cost => mem_pricedCosts hnative hrow hshort
  obtain ⟨offer, hfeasible, hkey⟩ := hsupplied
  obtain ⟨best, qty, price, hname, hunit, hp⟩ := exists_cheapestPerUnit casefold hfeasible
  have hin : price * (qty : Decimal) ∈ pricedCosts casefold combo row :=
    (hmem _).mpr ⟨best, qty, price, hname ▸ hkey, hunit, hp, rfl⟩
  cases hmin : (pricedCosts casefold combo row).min? with
  | none =>
    rw [List.min?_eq_none_iff.mp hmin] at hin
    cases hin
  | some least =>
    have hcombo : comboCost casefold combo row = least := by rw [comboCost, hmin]; rfl
    obtain ⟨hleast, hbelow⟩ := List.min?_eq_some_iff.mp hmin
    rw [hcombo]
    refine ⟨by simp, ?_, ?_⟩
    · obtain ⟨_, _, _, _, _, hp', rfl⟩ := (hmem _).mp hleast
      exact leastCost_le hshort hp'
    · constructor
      · intro heq
        obtain ⟨offer', _, _, hkey', hunit', hp', rfl⟩ := (hmem _).mp hleast
        exact ⟨offer', (cheapestOffer_iff hshort hp').mpr heq, hunit', hkey'⟩
      · rintro ⟨offer', hcheapest, hunit', hkey'⟩
        obtain ⟨qty', price', hp', hall⟩ := id hcheapest
        have hcost : leastCost casefold row = price' * qty' :=
          (cheapestOffer_iff hshort hp').mp hcheapest
        have hle := hbelow _ ((hmem _).mpr ⟨offer', qty', price', hkey', hunit', hp', rfl⟩)
        obtain ⟨_, _, _, _, _, hp'', rfl⟩ := (hmem _).mp hleast
        exact le_antisymm (leastCost_le hshort hp'') (hcost ▸ hle)

theorem comboTotalCost_of_unpriced (h : ∀ row ∈ rows, (pricedCosts casefold combo row).min? = none) :
    comboTotalCost casefold combo rows = none := by
  have hnil : (rows.filterMap fun row => (pricedCosts casefold combo row).min?) = [] :=
    List.filterMap_eq_nil_iff.mpr h
  unfold comboTotalCost
  rw [hnil]

theorem comboTotalCost_of_priced (hrow : row ∈ rows)
    (h : (pricedCosts casefold combo row).min? ≠ none) :
    comboTotalCost casefold combo rows = some (rows.map (comboCost casefold combo)).sum := by
  have hsum : ∀ rows : List SourcingBomLineOut,
      (rows.filterMap fun row => (pricedCosts casefold combo row).min?).sum =
        (rows.map (comboCost casefold combo)).sum := by
    intro rows
    induction rows with
    | nil => rfl
    | cons row rows ih =>
      rw [List.map_cons, List.sum_cons, ← ih, List.filterMap_cons, comboCost]
      cases (pricedCosts casefold combo row).min? with
      | none => simp
      | some cost => simp
  unfold comboTotalCost
  split
  next hnil => exact absurd (List.filterMap_eq_nil_iff.mp hnil row hrow) h
  next => rw [hsum]

def lowestPlan (casefold : String → String) (rows : List SourcingBomLineOut) : OptimizerOutcome :=
  outcome casefold ((sortedRows rows).map (selectLowestTotalPrice casefold none))

theorem optimize_lowest : optimize casefold rows lowestTotalPriceArgs = .ok (lowestPlan casefold rows) :=
  optimize_ok rows (fun _ hm => by cases hm) (fun _ hc => by cases hc)

theorem mem_sortedRows : row ∈ sortedRows rows ↔ row ∈ rows :=
  (List.perm_insertionSort _ rows).mem_iff

theorem lowestPlan_cost : ((lowestPlan casefold rows).selections.map selectionCost).sum =
    (rows.map (leastCost casefold)).sum := by
  have hperm : (sortedRows rows).Perm rows := List.perm_insertionSort _ rows
  have hsum := (hperm.map (leastCost casefold)).sum_eq
  rw [← hsum, lowestPlan, outcome, List.map_map]
  rfl

theorem mem_distributorsUsed {selections : List OptimizerSelection} {name : String} :
    name ∈ (outcome casefold selections).distributorsUsed ↔
      ∃ s ∈ selections, s.selectedDistributor = some name := by
  simp only [outcome, List.mem_insertionSort, List.mem_dedup, List.mem_filterMap]

theorem selectedDistributor_none_iff :
    (selectLowestTotalPrice casefold none row).selectedDistributor = none ↔ ¬ Fillable row := by
  constructor
  · intro hnull hfill
    obtain ⟨offer, _, hsome, _⟩ := leastCost_offer casefold hfill
    rw [hnull] at hsome
    cases hsome
  · intro h
    rw [selectLowestTotalPrice, candidates_of_not_fillable h]
    rfl

theorem mem_planKeys {key : String} :
    key ∈ (lowestPlan casefold rows).distributorsUsed.map casefold ↔
      ∃ row ∈ rows, 1 ≤ row.shortBy ∧ ∃ offer, FirstCheapest casefold row offer ∧
        casefold offer.distributor = key := by
  simp only [List.mem_map, lowestPlan, mem_distributorsUsed, mem_sortedRows]
  constructor
  · rintro ⟨name, ⟨_, ⟨row, hrow, rfl⟩, hname⟩, rfl⟩
    have hfill : Fillable row := by
      by_contra hnot
      rw [selectedDistributor_none_iff.mpr hnot] at hname
      cases hname
    obtain ⟨offer, hfirst, hsome, _⟩ := leastCost_offer casefold hfill
    rw [hsome] at hname
    exact ⟨row, hrow, hfill.1, offer, hfirst, by rw [Option.some.inj hname]⟩
  · rintro ⟨row, hrow, hshort, offer, hfirst, rfl⟩
    obtain ⟨qty, price, hp, _⟩ := hfirst.1
    obtain ⟨best, hbest, hsome, _⟩ := leastCost_offer casefold ⟨hshort, offer, qty, price, hp⟩
    have halpha : alphaKey casefold best = alphaKey casefold offer :=
      le_antisymm (hbest.2 offer hfirst.1) (hfirst.2 best hbest.1)
    exact ⟨best.distributor, ⟨_, ⟨row, hrow, rfl⟩, hsome⟩, congrArg (fun t => (ofLex t).1) halpha⟩

theorem planKeys_supply :
    Supplies casefold ((lowestPlan casefold rows).distributorsUsed.map casefold) rows := by
  intro row hrow hfill
  obtain ⟨offer, hfirst, _⟩ := leastCost_offer casefold hfill
  obtain ⟨qty, price, hp, _⟩ := hfirst.1
  exact ⟨offer, ⟨qty, price, hp⟩, mem_planKeys.mpr ⟨row, hrow, hfill.1, offer, hfirst, rfl⟩⟩

theorem planKeys_nil (h : ∀ row ∈ rows, ¬ Fillable row) :
    (lowestPlan casefold rows).distributorsUsed.map casefold = [] := by
  rw [List.eq_nil_iff_forall_not_mem]
  intro key hkey
  obtain ⟨row, hrow, hshort, offer, ⟨⟨qty, price, hp, _⟩, _⟩, _⟩ := mem_planKeys.mp hkey
  exact h row hrow ⟨hshort, offer, qty, price, hp⟩

variable (casefold rows) in
theorem computeCoverage_ok : ∃ matrix, computeCoverage casefold rows = .ok matrix ∧
    matrix.lowestTotalPriceTotal =
      comboTotalCost casefold ((lowestPlan casefold rows).distributorsUsed.map casefold) rows := by
  unfold computeCoverage
  by_cases hnil : rows.length = 0
  · rw [if_pos hnil]
    rw [List.length_eq_zero_iff] at hnil
    subst hnil
    exact ⟨_, rfl, rfl⟩
  · rw [if_neg hnil, lowestTotalPriceVariant, optimize_lowest]
    exact ⟨_, rfl, rfl⟩

theorem leastCost_le_comboCost (hnative : NativeOnly rows) (hsupply : Supplies casefold combo rows) :
    ∀ row ∈ rows, leastCost casefold row ≤ comboCost casefold combo row := by
  intro row hrow
  by_cases hfill : Fillable row
  · exact (comboCost_supplied hnative hrow hfill (hsupply row hrow hfill)).2.1
  · rw [leastCost_of_not_fillable hfill, comboCost_of_not_fillable hnative hrow hfill]

theorem sum_eq_iff_of_le {f g : SourcingBomLineOut → Decimal} (h : ∀ row ∈ rows, f row ≤ g row) :
    (rows.map f).sum = (rows.map g).sum ↔ ∀ row ∈ rows, f row = g row := by
  constructor
  · intro heq row hrow
    by_contra hne
    have hlt := List.sum_lt_sum f g h ⟨row, hrow, lt_of_le_of_ne (h row hrow) hne⟩
    exact absurd heq (ne_of_lt hlt)
  · intro hall
    rw [List.map_congr_left hall]

/-- The coverage total and the optimizer agree exactly when, for every row that can
be filled, a distributor of the plan has a cheapest offer that is also its first
by unit price. -/
theorem pricesAgree_iff (casefold : String → String) (rows : List SourcingBomLineOut)
    (hnative : NativeOnly rows) : PricesAgree casefold rows ↔ UnitPricesAgree casefold rows := by
  obtain ⟨matrix, hcoverage, htotal⟩ := computeCoverage_ok casefold rows
  have hsupply : Supplies casefold _ rows := planKeys_supply
  have hplan : ∀ plan, optimize casefold rows lowestTotalPriceArgs = .ok plan →
      plan = lowestPlan casefold rows := by
    intro plan hok
    rw [optimize_lowest] at hok
    exact (Except.ok.inj hok).symm
  have hnone : (∀ s ∈ (lowestPlan casefold rows).selections, s.selectedDistributor = none) ↔
      ∀ row ∈ rows, ¬ Fillable row := by
    simp only [lowestPlan, outcome, List.forall_mem_map, mem_sortedRows,
      selectedDistributor_none_iff]
  by_cases hfilled : ∀ row ∈ rows, ¬ Fillable row
  · have hnull : matrix.lowestTotalPriceTotal = none := by
      rw [htotal, planKeys_nil hfilled]
      exact comboTotalCost_of_unpriced fun row _ => rfl
    constructor
    · intro _ row hrow hfill
      exact absurd hfill (hfilled row hrow)
    · intro _
      refine ⟨matrix, _, hcoverage, optimize_lowest, ?_, ?_⟩
      · rw [if_pos (hnone.mpr hfilled), hnull]
      · intro combo _ total hsome
        rw [hnull] at hsome
        cases hsome
  · push Not at hfilled
    obtain ⟨some, hsome, hfill⟩ := hfilled
    have hpriced : ∀ combo, Supplies casefold combo rows →
        comboTotalCost casefold combo rows = .some (rows.map (comboCost casefold combo)).sum := by
      intro combo hcombo
      exact comboTotalCost_of_priced hsome
        (comboCost_supplied hnative hsome hfill (hcombo some hsome hfill)).1
    have hiff : (rows.map (leastCost casefold)).sum = (rows.map (comboCost casefold
        ((lowestPlan casefold rows).distributorsUsed.map casefold))).sum ↔
          UnitPricesAgree casefold rows := by
      rw [sum_eq_iff_of_le (leastCost_le_comboCost hnative hsupply)]
      apply forall₂_congr
      intro row hrow
      by_cases hrowFill : Fillable row
      · rw [(comboCost_supplied hnative hrow hrowFill (hsupply row hrow hrowFill)).2.2]
        simp only [hrowFill, true_imp_iff, mem_planKeys]
      · simp [hrowFill, leastCost_of_not_fillable, comboCost_of_not_fillable hnative hrow hrowFill]
    rw [← hiff]
    have hsum : ¬ ∀ s ∈ (lowestPlan casefold rows).selections, s.selectedDistributor = none := by
      intro hall
      exact hnone.mp hall some hsome hfill
    constructor
    · rintro ⟨matrix', plan, hcoverage', hok, hcost, _⟩
      rw [hcoverage, Except.ok.injEq] at hcoverage'
      rw [hplan plan hok, if_neg hsum, ← hcoverage', htotal, hpriced _ hsupply,
        lowestPlan_cost] at hcost
      exact (Option.some.inj hcost).symm
    · intro heq
      refine ⟨matrix, _, hcoverage, optimize_lowest, ?_, ?_⟩
      · rw [if_neg hsum, htotal, hpriced _ hsupply, lowestPlan_cost, heq]
      · intro combo hcombo total hsomeTotal
        refine ⟨_, hpriced combo hcombo, ?_⟩
        rw [htotal, hpriced _ hsupply, ← heq] at hsomeTotal
        rw [← Option.some.inj hsomeTotal]
        exact List.sum_le_sum (leastCost_le_comboCost hnative hcombo)

/-- Ten washers cost 10 one by one; the offer with the lower unit price comes in
thousands, for 500. -/
theorem coverageTotal_differs : NativeOnly [washerRow] ∧ ¬ PricesAgree id [washerRow] := by
  have hmatrix : computeCoverage id [washerRow] = .ok ⟨1, ["Acme"], some 500⟩ := by decide +kernel
  have hcost : ((lowestPlan id [washerRow]).selections.map selectionCost).sum = 10 := by
    decide +kernel
  have hfilled : ∃ s ∈ (lowestPlan id [washerRow]).selections, s.selectedDistributor ≠ none := by
    decide +kernel
  refine ⟨by unfold NativeOnly; decide, ?_⟩
  rintro ⟨matrix, plan, hcoverage, hok, htotal, _⟩
  rw [optimize_lowest] at hok
  rw [hmatrix] at hcoverage
  obtain rfl := Except.ok.inj hok
  obtain rfl := Except.ok.inj hcoverage
  obtain ⟨s, hs, hsome⟩ := hfilled
  have hany : ¬ ∀ s ∈ (lowestPlan id [washerRow]).selections, s.selectedDistributor = none :=
    fun hall => hsome (hall s hs)
  rw [if_neg hany, hcost] at htotal
  exact absurd htotal (by decide)

/-- The same row with the first offer only. -/
def plainRow : SourcingBomLineOut := { washerRow with offers := [washerOffer] }

theorem pricesAgree_iff_sample : PricesAgree id [plainRow] := by
  have honly : ∀ offer qty price, Purchasable none plainRow offer qty price →
      offer = washerOffer ∧ qty = 10 ∧ price = 1 := by
    intro offer qty price hp
    obtain rfl := List.mem_singleton.mp hp.inRow
    have hqty : qty = 10 := hp.qty_eq
    subst hqty
    have hprice : unitPrice washerOffer 10 = some 1 := by decide
    exact ⟨rfl, rfl, Option.some.inj (hp.priced.symm.trans hprice)⟩
  have hcheapest : CheapestOffer plainRow washerOffer := by
    refine ⟨10, 1, ⟨List.mem_singleton.mpr rfl, rfl, by simp, by decide, by decide⟩, ?_⟩
    intro offer qty price hp
    obtain ⟨_, rfl, rfl⟩ := honly offer qty price hp
    exact le_rfl
  have hfirst : FirstCheapest id plainRow washerOffer := by
    refine ⟨hcheapest, ?_⟩
    rintro offer ⟨qty, price, hp, _⟩
    rw [(honly offer qty price hp).1]
  have hunit : CheapestPerUnit id plainRow washerOffer := by
    unfold CheapestPerUnit
    decide
  apply (pricesAgree_iff id [plainRow] (by unfold NativeOnly; decide)).mpr
  intro row hrow _
  obtain rfl := List.mem_singleton.mp hrow
  exact ⟨washerOffer, hcheapest, hunit, _, hrow, by decide, washerOffer, hfirst, rfl⟩

end StockManager
