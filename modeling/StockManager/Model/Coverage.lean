import StockManager.Model.Optimizer

/-! # Coverage variants and build capacity (domain/sourcing/coverage.py) -/

namespace StockManager

/-! ### Build capacity -/

def supportedBuilds (available required requestedBuildQuantity : ℤ) : ℤ :=
  if available ≤ 0 ∨ requestedBuildQuantity ≤ 0 then 0
  else available * requestedBuildQuantity / required

structure BuildCapacity where
  canBuildNow : ℤ
  canBuildAfterPurchase : ℤ
  blockingLinesNow : List Uuid
  blockingLinesAfterPurchase : List Uuid
  deriving DecidableEq

/-- A dictionary by entry keeps the last row of an entry. -/
def ratiosOf (ratio : SourcingBomLineOut → ℤ) (rows : List SourcingBomLineOut) : List (Uuid × ℤ) :=
  rows.foldl (fun d row => Dict.put row.projectEntryId (ratio row) d) []

def computeBuildCapacity (bomRows : List SourcingBomLineOut) (requestedBuildQuantity : ℤ) :
    BuildCapacity :=
  let effectiveRows := bomRows.filter fun row => 0 < row.required
  let ratiosNow := ratiosOf (fun row =>
    supportedBuilds (row.available + row.substituteAvailable) row.required
      requestedBuildQuantity) effectiveRows
  let ratiosAfterPurchase := ratiosOf (fun row =>
    supportedBuilds (row.available + row.substituteAvailable + row.authorizedStock) row.required
      requestedBuildQuantity) effectiveRows
  match (ratiosNow.map Prod.snd).min?, (ratiosAfterPurchase.map Prod.snd).min? with
  | some canBuildNow, some canBuildAfterPurchase =>
    { canBuildNow := canBuildNow
      canBuildAfterPurchase := canBuildAfterPurchase
      blockingLinesNow := (effectiveRows.filter fun row =>
        Dict.find row.projectEntryId ratiosNow = some canBuildNow).map (·.projectEntryId)
      blockingLinesAfterPurchase := (effectiveRows.filter fun row =>
        Dict.find row.projectEntryId ratiosAfterPurchase = some canBuildAfterPurchase).map
          (·.projectEntryId) }
  | _, _ => ⟨0, 0, [], []⟩

/-! ### The price of a set of distributors -/

/-- `_selected_qty`; nothing is bought for a line that is not short. -/
def coverageSelectedQty (shortBy : ℤ) (moq : Option ℤ) : ℤ :=
  if shortBy ≤ 0 then 0 else max shortBy (moqOrOne moq)

/-- `price_breaks_converted or price_breaks` -/
def displayBreaks (offer : SourcingBomOfferOut) : List PriceBreak :=
  match offer.priceBreaksConverted with
  | some (first :: rest) => first :: rest
  | _ => offer.priceBreaks

/-- `unit_price_converted or unit_price` -/
def displayPrice (offer : SourcingBomOfferOut) : Option Decimal :=
  match offer.unitPriceConverted with
  | some price => if price = 0 then offer.unitPrice else some price
  | none => offer.unitPrice

def offerUnitPrice (offer : SourcingBomOfferOut) (qty : ℤ) : Option Decimal :=
  match bestUnitPriceAtQty (displayBreaks offer) qty with
  | some best => some best.1
  | none => displayPrice offer

theorem offerUnitPrice_native {offer : SourcingBomOfferOut}
    (h : offer.unitPriceConverted = none ∧ offer.priceBreaksConverted = none) (qty : ℤ) :
    offerUnitPrice offer qty = unitPrice offer qty := by
  have hbreaks : displayBreaks offer = offer.priceBreaks := by simp [displayBreaks, h.2]
  have hprice : displayPrice offer = offer.unitPrice := by simp [displayPrice, h.1]
  unfold offerUnitPrice
  rw [hbreaks, hprice]
  rfl

def offerExtendedCost (offer : SourcingBomOfferOut) (qty : ℤ) : Option Decimal :=
  if qty ≤ 0 then some 0 else (offerUnitPrice offer qty).map fun price => price * qty

/-- `_price_sort_value`: no price counts as infinite. -/
def priceSortValue : Option Decimal → WithTop Decimal
  | some price => price
  | none => ⊤

section Casefold

variable (casefold : String → String)

/-- The key `_best_offer_for_quantity` minimises. -/
def offerKey (qty : ℤ) (offer : SourcingBomOfferOut) : WithTop Decimal ×ₗ ℕ ×ₗ String :=
  toLex (priceSortValue (offerUnitPrice offer qty),
    toLex (offer.leadTimeDays.getD infiniteLeadTimeDays, casefold offer.mpn))

def bestOfferForQuantity (distributorKey : String) (line : SourcingBomLineOut)
    (quantityForOffer : SourcingBomOfferOut → ℤ) : Option SourcingBomOfferOut :=
  (line.offers.filter fun offer =>
    casefold offer.distributor = distributorKey ∧ quantityForOffer offer ≤ offer.stock).argmin
      fun offer => offerKey casefold (quantityForOffer offer) offer

def bestPurchaseableOffer (distributorKey : String) (line : SourcingBomLineOut) :
    Option SourcingBomOfferOut :=
  bestOfferForQuantity casefold distributorKey line fun offer =>
    coverageSelectedQty line.shortBy offer.moq

/-- The prices a set of distributors has for a line. -/
def pricedCosts (combo : List String) (line : SourcingBomLineOut) : List Decimal :=
  combo.dedup.filterMap fun key =>
    (bestPurchaseableOffer casefold key line).bind fun offer =>
      offerExtendedCost offer (coverageSelectedQty line.shortBy offer.moq)

def comboTotalCost (combo : List String) (bomRows : List SourcingBomLineOut) : Option Decimal :=
  match bomRows.filterMap fun line => (pricedCosts casefold combo line).min? with
  | [] => none
  | costs => some costs.sum

/-- The arguments `compute_coverage` leaves to their defaults. -/
def lowestTotalPriceArgs : OptimizerArgs := ⟨.lowestTotalPrice, [], none, none, 5⟩

def lowestTotalPriceVariant (bomRows : List SourcingBomLineOut) :
    Except SourcingErr (List String × Option Decimal) := do
  let plan ← optimize casefold bomRows lowestTotalPriceArgs
  return (plan.distributorsUsed,
    comboTotalCost casefold (plan.distributorsUsed.map casefold) bomRows)

structure DistributorCoverageMatrix where
  totalLines : ℕ
  lowestTotalPriceCombo : List String
  lowestTotalPriceTotal : Option Decimal
  deriving DecidableEq

def computeCoverage (bomRows : List SourcingBomLineOut) :
    Except SourcingErr DistributorCoverageMatrix := do
  if bomRows.length = 0 then return ⟨0, [], none⟩
  let lowestPrice ← lowestTotalPriceVariant casefold bomRows
  return ⟨bomRows.length, lowestPrice.1, lowestPrice.2⟩

end Casefold

end StockManager

/-! ## The fewest-distributors combination (domain/sourcing/coverage.py)

The product `len(bom_rows) * target_coverage_pct` is one of floats; the rounding
`fl` of it is a parameter. -/

namespace StockManager

def fewestDistributorsExhaustiveLimit : ℕ := 10

/-- `itertools.combinations`, in its order -/
def combinations {α : Type} : ℕ → List α → List (List α)
  | 0, _ => [[]]
  | _ + 1, [] => []
  | size + 1, a :: l => (combinations size l).map (a :: ·) ++ combinations (size + 1) l

structure DistributorCoverageRow where
  distributor : String
  linesCovered : ℕ
  linesUncovered : List Uuid
  estTotalCost : Option Decimal
  worstLeadTimeDays : Option ℕ
  deriving DecidableEq

/-- What the loop over the lines gathers for a distributor. -/
structure LinesCovered where
  covered : Finset Uuid
  totalCost : Option Decimal
  worstLeadTime : Option ℕ

-- stated for the same reason as `fewestKeyOrder`
instance singleKeyOrder : LinearOrder (ℤ ×ₗ ℕ ×ₗ WithTop Decimal ×ₗ String) :=
  @Prod.Lex.instLinearOrder ℤ _ Int.instLinearOrder _

instance : Preorder (ℤ ×ₗ ℕ ×ₗ WithTop Decimal ×ₗ String) := singleKeyOrder.toPreorder

instance greedyKeyOrder : LinearOrder (ℤ ×ₗ WithTop Decimal ×ₗ String) :=
  @Prod.Lex.instLinearOrder ℤ _ Int.instLinearOrder _

instance : Preorder (ℤ ×ₗ WithTop Decimal ×ₗ String) := greedyKeyOrder.toPreorder

section Casefold

variable (casefold : String → String)

/-! ### One row for each distributor -/

def bestCoveringOffer (distributorKey : String) (line : SourcingBomLineOut) :
    Option SourcingBomOfferOut :=
  bestOfferForQuantity casefold distributorKey line fun _ => line.shortBy

def offersByDistributor (bomRows : List SourcingBomLineOut) :
    List (String × List SourcingBomOfferOut) :=
  Dict.gather (fun offer : SourcingBomOfferOut => casefold offer.distributor) id
    (bomRows.flatMap (·.offers))

/-- The spelling of each distributor that comes first. -/
def displayNames (bomRows : List SourcingBomLineOut) : List (String × String) :=
  (bomRows.flatMap (·.offers)).foldl
    (fun names offer => Dict.upsert (casefold offer.distributor) offer.distributor id names) []

def coverLine (key : String) (sofar : LinesCovered) (line : SourcingBomLineOut) : LinesCovered :=
  match bestCoveringOffer casefold key line with
  | none => sofar
  | some offer =>
    { covered := insert line.projectEntryId sofar.covered
      totalCost := (offerExtendedCost offer line.shortBy).bind fun cost =>
        sofar.totalCost.map fun total => total + cost
      worstLeadTime := match offer.leadTimeDays with
        | none => sofar.worstLeadTime
        | some days => some ((sofar.worstLeadTime.map fun worst => max worst days).getD days) }

def coverageRow (bomRows : List SourcingBomLineOut) (key : String) : DistributorCoverageRow :=
  let lines := bomRows.foldl (coverLine casefold key) ⟨∅, some 0, none⟩
  { distributor := (Dict.find key (displayNames casefold bomRows)).getD ""
    linesCovered := lines.covered.card
    linesUncovered := (bomRows.map (·.projectEntryId)).filter fun id => id ∉ lines.covered
    estTotalCost := lines.totalCost
    worstLeadTimeDays := lines.worstLeadTime }

def singleSortKey (ranks : List (String × ℕ)) (row : DistributorCoverageRow) :
    ℤ ×ₗ ℕ ×ₗ WithTop Decimal ×ₗ String :=
  toLex (-(row.linesCovered : ℤ), toLex ((Dict.find (casefold row.distributor) ranks).getD (10 ^ 9),
    toLex (priceSortValue row.estTotalCost, casefold row.distributor)))

/-- The lines a distributor can be bought from for. -/
def purchaseableLines (bomRows : List SourcingBomLineOut) (key : String) : Finset Uuid :=
  ((bomRows.filter fun line => (bestPurchaseableOffer casefold key line).isSome).map
    (·.projectEntryId)).toFinset

def purchaseableByDistributor (bomRows : List SourcingBomLineOut) :
    List (String × Finset Uuid) :=
  (Dict.keys (offersByDistributor casefold bomRows)).map fun key =>
    (key, purchaseableLines casefold bomRows key)

/-! ### The search -/

def comboCovered (combo : List String) (coveredByDistributor : List (String × Finset Uuid)) :
    Finset Uuid :=
  combo.foldl (fun covered key => covered ∪ (Dict.find key coveredByDistributor).getD ∅) ∅

/-- `set().union(*covered_by_distributor.values())` -/
def coverableLines (coveredByDistributor : List (String × Finset Uuid)) : Finset Uuid :=
  coveredByDistributor.foldl (fun covered item => covered ∪ item.2) ∅

/-- `rows_by_key[key].distributor` -/
def nameOf (rowsByKey : List (String × DistributorCoverageRow)) (key : String) : String :=
  ((Dict.find key rowsByKey).map (·.distributor)).getD ""

section Search

variable (bomRows : List SourcingBomLineOut) (coveredByDistributor : List (String × Finset Uuid))
  (rowsByKey : List (String × DistributorCoverageRow)) (targetCount : ℤ)

def comboSortKey (combo : List String) : WithTop Decimal ×ₗ List String :=
  toLex (priceSortValue (comboTotalCost casefold combo bomRows),
    (combo.map fun key => casefold (nameOf rowsByKey key)).insertionSort (· ≤ ·))

def fewestExhaustiveCombo (keys : List String) : List String :=
  ((List.range' 1 keys.length).findSome? fun size =>
    ((combinations size keys).filter fun combo =>
      targetCount ≤ ((comboCovered combo coveredByDistributor).card : ℤ)).argmin
        (comboSortKey casefold bomRows rowsByKey)).getD []

def greedyKey (selected : List String) (uncovered : Finset Uuid) (key : String) :
    ℤ ×ₗ WithTop Decimal ×ₗ String :=
  toLex (-((((Dict.find key coveredByDistributor).getD ∅ ∩ uncovered).card : ℕ) : ℤ),
    toLex (priceSortValue (comboTotalCost casefold (selected ++ [key]) bomRows),
      casefold (nameOf rowsByKey key)))

/-- A turn selects a distributor, so more turns than distributors are enough. -/
def greedyLoop (keys : List String) : ℕ → List String → Finset Uuid → List String
  | 0, selected, _ => selected
  | turns + 1, selected, uncovered =>
    if ((comboCovered selected coveredByDistributor).card : ℤ) < targetCount then
      match (keys.filter fun key => key ∉ selected).argmin
          (greedyKey casefold bomRows coveredByDistributor rowsByKey selected uncovered) with
      | none => selected
      | some nextKey =>
        if (Dict.find nextKey coveredByDistributor).getD ∅ ∩ uncovered = ∅ then selected
        else greedyLoop keys turns (selected ++ [nextKey])
          (uncovered \ (Dict.find nextKey coveredByDistributor).getD ∅)
    else selected

def fewestGreedyCombo (keys : List String) : List String :=
  greedyLoop casefold bomRows coveredByDistributor rowsByKey targetCount keys (keys.length + 1) []
    (coverableLines coveredByDistributor)

end Search

def fewestDistributorsVariant (fl : ℚ → ℚ) (rows : List DistributorCoverageRow)
    (bomRows : List SourcingBomLineOut) (coveredByDistributor : List (String × Finset Uuid))
    (targetCoveragePct : ℚ) : List String × Option Decimal :=
  let keys := rows.map fun row => casefold row.distributor
  if keys = [] ∨ bomRows = [] then ([], none)
  else
    let targetCount : ℤ := min ⌈fl (bomRows.length * targetCoveragePct)⌉
      (coverableLines coveredByDistributor).card
    if targetCount ≤ 0 then ([], none)
    else
      let rowsByKey := rows.foldl (fun d row => Dict.put (casefold row.distributor) row d) []
      let best := if keys.length ≤ fewestDistributorsExhaustiveLimit then
          fewestExhaustiveCombo casefold bomRows coveredByDistributor rowsByKey targetCount keys
        else fewestGreedyCombo casefold bomRows coveredByDistributor rowsByKey targetCount keys
      if best = [] then ([], none)
      else ((best.map (nameOf rowsByKey)).insertionSort fun a b => casefold a ≤ casefold b,
        comboTotalCost casefold best bomRows)

/-- `fewest_distributors_combo` and its total, as `compute_coverage` finds them -/
def fewestOfCoverage (fl : ℚ → ℚ) (bomRows : List SourcingBomLineOut)
    (preferredDistributors : List String) (targetCoveragePct : ℚ) : List String × Option Decimal :=
  if bomRows.length = 0 then ([], none)
  else
    let ranks := preferredRank casefold preferredDistributors
    let rows := ((Dict.keys (offersByDistributor casefold bomRows)).map
      (coverageRow casefold bomRows)).insertionSort fun a b =>
        singleSortKey casefold ranks a ≤ singleSortKey casefold ranks b
    fewestDistributorsVariant casefold fl rows bomRows (purchaseableByDistributor casefold bomRows)
      targetCoveragePct

end Casefold

end StockManager
