import Mathlib
import StockManager.Library.FirstMin
import StockManager.Model.Budget

/-! # The purchase-plan optimizer (domain/sourcing/pricing.py, optimizer.py)

`str.casefold` is a parameter: nothing here depends on which letters it folds. -/

namespace StockManager

/-! ### BOM rows and their offers (domain/sourcing/schemas.py) -/

def infiniteLeadTimeDays : ℕ := 1000000000

structure PriceBreak where
  quantity : ℤ
  unitPrice : Decimal
  deriving DecidableEq

structure SourcingBomOfferOut where
  mpn : String
  distributor : String
  stock : ℤ
  unitPrice : Option Decimal
  currency : Option String
  unitPriceConverted : Option Decimal
  currencyDisplayed : Option String
  packaging : Option String
  moq : Option ℤ
  leadTimeDays : Option ℕ
  priceBreaks : List PriceBreak
  priceBreaksConverted : Option (List PriceBreak)
  url : Option String
  leadTimeBound : ∀ days ∈ leadTimeDays, days < infiniteLeadTimeDays
  deriving DecidableEq

structure SourcingBomLineOut where
  projectEntryId : Uuid
  partId : Uuid
  mpn : Option String
  required : ℤ
  available : ℤ
  substituteAvailable : ℤ
  shortBy : ℤ
  authorizedStock : ℤ
  offers : List SourcingBomOfferOut
  riskFlags : List String
  deriving DecidableEq

/-! ### Prices -/

/-- `best_unit_price_at_qty`: the last break not above the quantity, or the first. -/
def bestUnitPriceAtQty (priceBreaks : List PriceBreak) (qty : ℤ) : Option (Decimal × ℤ) :=
  let breaks := (priceBreaks.filter fun b => 1 ≤ b.quantity).insertionSort
    fun a b => a.quantity ≤ b.quantity
  match breaks with
  | [] => none
  | first :: rest =>
    if qty < 1 then none
    else
      let selected := (((first :: rest).takeWhile fun b => b.quantity ≤ qty).getLast?).getD first
      some (selected.unitPrice, selected.quantity)

/-- `moq or 1` -/
def moqOrOne : Option ℤ → ℤ
  | some moq => if moq = 0 then 1 else moq
  | none => 1

def selectedQty (shortageQty : ℤ) (moq : Option ℤ) : ℤ := max shortageQty (moqOrOne moq)

def unitPrice (offer : SourcingBomOfferOut) (qty : ℤ) : Option Decimal :=
  match bestUnitPriceAtQty offer.priceBreaks qty with
  | some best => some best.1
  | none => offer.unitPrice

/-! ### Candidates -/

structure Candidate where
  line : SourcingBomLineOut
  offer : SourcingBomOfferOut
  selectedQty : ℤ
  unitPrice : Decimal
  extendedCost : Decimal
  deriving DecidableEq

abbrev AlphaKey := String ×ₗ String ×ₗ String

section Casefold

variable (casefold : String → String)

/-- `_candidate_alpha_key` -/
def alphaKey (offer : SourcingBomOfferOut) : AlphaKey :=
  toLex (casefold offer.distributor, toLex (casefold offer.mpn, offer.url.getD ""))

def candidateOf (moqOverbuyCap : Option ℤ) (row : SourcingBomLineOut)
    (offer : SourcingBomOfferOut) : Option Candidate :=
  let qty := selectedQty row.shortBy offer.moq
  if ∃ cap ∈ moqOverbuyCap, row.shortBy * cap < qty then none
  else if offer.stock < qty then none
  else (unitPrice offer qty).map fun price => ⟨row, offer, qty, price, price * qty⟩

def candidates (moqOverbuyCap : Option ℤ) (row : SourcingBomLineOut) : List Candidate :=
  if row.shortBy < 1 then []
  else (row.offers.filterMap (candidateOf moqOverbuyCap row)).insertionSort
    fun a b => alphaKey casefold a.offer ≤ alphaKey casefold b.offer

def lowestPriceKey (c : Candidate) : Decimal ×ₗ AlphaKey :=
  toLex (c.extendedCost, alphaKey casefold c.offer)

def lowestUnitPriceKey (c : Candidate) : Decimal ×ₗ Decimal ×ₗ AlphaKey :=
  toLex (c.unitPrice, toLex (c.extendedCost, alphaKey casefold c.offer))

def fastestKey (c : Candidate) : ℕ ×ₗ Decimal ×ₗ AlphaKey :=
  toLex (c.offer.leadTimeDays.getD infiniteLeadTimeDays,
    toLex (c.unitPrice, alphaKey casefold c.offer))

/-! ### Selections -/

structure OptimizerSelection where
  projectEntryId : Uuid
  partId : Uuid
  mpnSearched : String
  requiredQty : ℤ
  internalAvailableQty : ℤ
  shortageQty : ℤ
  selectedDistributor : Option String
  selectedQty : ℤ
  selectedUnitPrice : Option Decimal
  selectedCurrency : Option String
  selectedPackaging : Option String
  selectedMoq : Option ℤ
  selectedLeadTimeDays : Option ℕ
  selectedUrl : Option String
  riskFlags : List String
  deriving DecidableEq

/-- `text or other`, for a text that may be missing -/
def orText (text : Option String) (other : String) : String :=
  match text with
  | some s => if s = "" then other else s
  | none => other

def selectionFromCandidate (c : Candidate) : OptimizerSelection where
  projectEntryId := c.line.projectEntryId
  partId := c.line.partId
  mpnSearched := orText c.line.mpn c.offer.mpn
  requiredQty := c.line.required
  internalAvailableQty := c.line.available + c.line.substituteAvailable
  shortageQty := c.line.shortBy
  selectedDistributor := some c.offer.distributor
  selectedQty := c.selectedQty
  selectedUnitPrice := some c.unitPrice
  selectedCurrency := c.offer.currency
  selectedPackaging := c.offer.packaging
  selectedMoq := c.offer.moq
  selectedLeadTimeDays := c.offer.leadTimeDays
  selectedUrl := c.offer.url
  riskFlags := c.line.riskFlags

def unfilledSelection (row : SourcingBomLineOut) : OptimizerSelection where
  projectEntryId := row.projectEntryId
  partId := row.partId
  mpnSearched := row.mpn.getD ""
  requiredQty := row.required
  internalAvailableQty := row.available + row.substituteAvailable
  shortageQty := row.shortBy
  selectedDistributor := none
  selectedQty := 0
  selectedUnitPrice := none
  selectedCurrency := none
  selectedPackaging := none
  selectedMoq := none
  selectedLeadTimeDays := none
  selectedUrl := none
  riskFlags := row.riskFlags

def selectionOf (row : SourcingBomLineOut) : Option Candidate → OptimizerSelection
  | some c => selectionFromCandidate c
  | none => unfilledSelection row

def selectLowestTotalPrice (moqOverbuyCap : Option ℤ) (row : SourcingBomLineOut) :
    OptimizerSelection :=
  selectionOf row ((candidates casefold moqOverbuyCap row).argmin (lowestPriceKey casefold))

def selectFastestAvailability (moqOverbuyCap : Option ℤ) (row : SourcingBomLineOut) :
    OptimizerSelection :=
  selectionOf row ((candidates casefold moqOverbuyCap row).argmin (fastestKey casefold))

/-- `_preferred_rank`: a name listed twice keeps its last place. -/
def preferredRank (preferredDistributors : List String) : List (String × ℕ) :=
  (preferredDistributors.zipIdx.filter fun d => strip d.1 ≠ "").foldl
    (fun ranks d => Dict.put (casefold (strip d.1)) d.2 ranks) []

def withinTolerance (unitPrice cheapest tolerance : Decimal) : Bool :=
  if cheapest ≤ 0 then unitPrice = cheapest else (unitPrice - cheapest) / cheapest ≤ tolerance

/-- The rank, the unit price and the alphabet. -/
def preferredKey (ranks : List (String × ℕ)) (c : Candidate) : ℕ ×ₗ Decimal ×ₗ AlphaKey :=
  toLex ((Dict.find (casefold c.offer.distributor) ranks).getD 0,
    toLex (c.unitPrice, alphaKey casefold c.offer))

def selectPreferredFirst (ranks : List (String × ℕ)) (moqOverbuyCap : Option ℤ)
    (priceTolerancePct : Decimal) (row : SourcingBomLineOut) : OptimizerSelection :=
  let found := candidates casefold moqOverbuyCap row
  match found.argmin (lowestUnitPriceKey casefold) with
  | none => unfilledSelection row
  | some cheapest =>
    let preferredCandidates := found.filter fun c =>
      casefold c.offer.distributor ∈ Dict.keys ranks ∧
        withinTolerance c.unitPrice cheapest.unitPrice (priceTolerancePct / 100) = true
    match preferredCandidates.argmin (preferredKey casefold ranks) with
    | some c => selectionFromCandidate c
    | none => selectionFromCandidate cheapest

/-! ### Fewest distributors -/

def bestCandidatesForDistributor (found : List Candidate) : List (Uuid × Candidate) :=
  FirstMin.bestBy (fun c => c.line.projectEntryId) (lowestPriceKey casefold) found

-- stated, as the order of ℤ found by search need not be the computable one
instance fewestKeyOrder : LinearOrder (ℤ ×ₗ Decimal ×ₗ String) :=
  @Prod.Lex.instLinearOrder ℤ _ Int.instLinearOrder _

instance : Preorder (ℤ ×ₗ Decimal ×ₗ String) := fewestKeyOrder.toPreorder

def fewestDistributorKey (candidatesByDistributor : List (String × List Candidate))
    (displayNames : List (String × String)) (key : String) : ℤ ×ₗ Decimal ×ₗ String :=
  let bestByLine := bestCandidatesForDistributor casefold
    ((Dict.find key candidatesByDistributor).getD [])
  toLex (-(bestByLine.length : ℤ), toLex ((bestByLine.map fun item => item.2.extendedCost).sum,
    casefold ((Dict.find key displayNames).getD "")))

/-- One turn of the loop: what the best distributor supplies, in line order. -/
def fewestRound (moqOverbuyCap : Option ℤ) (remaining : List (Uuid × SourcingBomLineOut)) :
    Option (List (Uuid × Candidate)) :=
  let found := remaining.flatMap fun item => candidates casefold moqOverbuyCap item.2
  let candidatesByDistributor :=
    Dict.gather (fun c : Candidate => casefold c.offer.distributor) id found
  let displayNames := found.foldl
    (fun names c => Dict.upsert (casefold c.offer.distributor) c.offer.distributor id names) []
  ((Dict.keys candidatesByDistributor).argmin
    (fewestDistributorKey casefold candidatesByDistributor displayNames)).map fun bestKey =>
      (bestCandidatesForDistributor casefold
        ((Dict.find bestKey candidatesByDistributor).getD [])).insertionSort
          fun a b => a.1 ≤ b.1

/-- The rows left and the selections made; a turn takes at least one row, so as
many turns as rows are enough. -/
def fewestLoop (moqOverbuyCap maxDistributors : Option ℤ) : ℕ → ℕ →
    List (Uuid × SourcingBomLineOut) → List (Uuid × OptimizerSelection) →
      List (Uuid × SourcingBomLineOut) × List (Uuid × OptimizerSelection)
  | 0, _, remaining, selectedByLine => (remaining, selectedByLine)
  | turns + 1, distributorsUsed, remaining, selectedByLine =>
    if remaining ≠ [] ∧ ∀ m ∈ maxDistributors, (distributorsUsed : ℤ) < m then
      match fewestRound casefold moqOverbuyCap remaining with
      | none => (remaining, selectedByLine)
      | some bestForLines =>
        fewestLoop moqOverbuyCap maxDistributors turns (distributorsUsed + 1)
          (bestForLines.foldl (fun d item => Dict.erase item.1 d) remaining)
          (bestForLines.foldl (fun d item => Dict.put item.1 (selectionFromCandidate item.2) d)
            selectedByLine)
    else (remaining, selectedByLine)

def optimizeFewestDistributors (rows : List SourcingBomLineOut)
    (maxDistributors moqOverbuyCap : Option ℤ) : List OptimizerSelection :=
  let remaining := rows.foldl (fun d row => Dict.put row.projectEntryId row d) []
  let left := fewestLoop casefold moqOverbuyCap maxDistributors remaining.length 0 remaining []
  let selectedByLine := left.1.foldl
    (fun d item => Dict.put item.2.projectEntryId (unfilledSelection item.2) d) left.2
  rows.filterMap fun row => Dict.find row.projectEntryId selectedByLine

/-! ### `optimize` -/

inductive Strategy
  | lowestTotalPrice | fewestDistributors | fastestAvailability | preferredFirst
  deriving DecidableEq

structure OptimizerOutcome where
  selections : List OptimizerSelection
  unfilledLines : List Uuid
  distributorsUsed : List String
  estTotalCost : Option Decimal
  worstLeadTimeDays : Option ℕ
  deriving DecidableEq

/-- `_outcome`; the set of names is read in order of first use. -/
def outcome (selections : List OptimizerSelection) : OptimizerOutcome where
  selections := selections
  unfilledLines := (selections.filter fun s => s.selectedDistributor = none).map (·.projectEntryId)
  distributorsUsed := ((selections.filterMap (·.selectedDistributor)).dedup).insertionSort
    fun a b => casefold a ≤ casefold b
  estTotalCost :=
    if (selections.filter fun s => s.selectedDistributor = none) = [] then
      some ((selections.filterMap fun s =>
        s.selectedUnitPrice.map fun price => price * s.selectedQty).sum)
    else none
  worstLeadTimeDays := (selections.filterMap (·.selectedLeadTimeDays)).max?

/-- The rows in the order of the plan. -/
def sortedRows (bomRows : List SourcingBomLineOut) : List SourcingBomLineOut :=
  bomRows.insertionSort fun a b =>
    (toLex (a.projectEntryId, a.mpn.getD "") : ℕ ×ₗ String) ≤ toLex (b.projectEntryId, b.mpn.getD "")

structure OptimizerArgs where
  strategy : Strategy
  preferredDistributors : List String
  maxDistributors : Option ℤ
  moqOverbuyCap : Option ℤ
  priceTolerancePct : Decimal

def selectionsOf (args : OptimizerArgs) (rows : List SourcingBomLineOut) :
    List OptimizerSelection :=
  match args.strategy with
  | .fewestDistributors =>
    optimizeFewestDistributors casefold rows args.maxDistributors args.moqOverbuyCap
  | .lowestTotalPrice => rows.map (selectLowestTotalPrice casefold args.moqOverbuyCap)
  | .fastestAvailability => rows.map (selectFastestAvailability casefold args.moqOverbuyCap)
  | .preferredFirst => rows.map (selectPreferredFirst casefold
      (preferredRank casefold args.preferredDistributors) args.moqOverbuyCap args.priceTolerancePct)

def optimize (bomRows : List SourcingBomLineOut) (args : OptimizerArgs) :
    Except SourcingErr OptimizerOutcome := do
  Outcome.check (∀ m ∈ args.maxDistributors, 1 ≤ m) (.value "max_distributors must be positive")
  Outcome.check (∀ c ∈ args.moqOverbuyCap, 1 ≤ c) (.value "moq_overbuy_cap must be positive")
  return outcome casefold (selectionsOf casefold args (sortedRows bomRows))

end Casefold

end StockManager

/-! ## Stored purchase plans (domain/sourcing/{models,service}.py) -/

namespace StockManager

structure PurchasePlanLine where
  id : Uuid
  projectEntryId : Option Uuid
  partId : Uuid
  mpnSearched : String
  requiredQty : ℤ
  internalAvailableQty : ℤ
  shortageQty : ℤ
  selectedDistributor : Option String
  selectedQty : Option ℤ
  selectedUnitPrice : Option Decimal
  selectedCurrency : Option String
  selectedPackaging : Option String
  selectedMoq : Option ℤ
  selectedLeadTimeDays : Option ℕ
  selectedUrl : Option String
  availableOffers : List SourcingBomOfferOut
  riskFlags : List String

def purchasePlanLine (rowsByEntryId : List (Uuid × SourcingBomLineOut)) (id : Uuid)
    (selection : OptimizerSelection) : PurchasePlanLine where
  id := id
  projectEntryId := some selection.projectEntryId
  partId := selection.partId
  mpnSearched := selection.mpnSearched
  requiredQty := selection.requiredQty
  internalAvailableQty := selection.internalAvailableQty
  shortageQty := selection.shortageQty
  selectedDistributor := selection.selectedDistributor
  selectedQty := some selection.selectedQty
  selectedUnitPrice := selection.selectedUnitPrice
  selectedCurrency := selection.selectedCurrency
  selectedPackaging := selection.selectedPackaging
  selectedMoq := selection.selectedMoq
  selectedLeadTimeDays := selection.selectedLeadTimeDays
  selectedUrl := selection.selectedUrl
  availableOffers := (Dict.find selection.projectEntryId rowsByEntryId).elim [] (·.offers)
  riskFlags := selection.riskFlags

/-- `_purchase_plan_lines_from_selections`; `newId` draws the lines' ids. -/
def purchasePlanLinesFromSelections (newId : ℕ → Uuid) (selections : List OptimizerSelection)
    (rows : List SourcingBomLineOut) : List PurchasePlanLine :=
  let rowsByEntryId := rows.foldl (fun d row => Dict.put row.projectEntryId row d) []
  selections.zipIdx.map fun item => purchasePlanLine rowsByEntryId (newId item.2) item.1

/-- What a `Numeric(18, 6)` column keeps: six decimals, a tie away from zero. -/
def numericColumn (d : Decimal) : Decimal :=
  (if 0 ≤ d then ⌊d * 1000000 + 1 / 2⌋ else ⌈d * 1000000 - 1 / 2⌉ : ℤ) / 1000000

/-- The line as it is read back. -/
def PurchasePlanLine.stored (line : PurchasePlanLine) : PurchasePlanLine :=
  { line with selectedUnitPrice := line.selectedUnitPrice.map numericColumn }

structure PurchasePlanOut where
  lines : List PurchasePlanLine
  distributorsUsed : List String
  estTotalCost : Option Decimal
  worstLeadTimeDays : Option ℕ
  unfilledCount : ℕ

section Casefold

variable (casefold : String → String)

/-- The order of the lines; a line whose BOM entry is gone comes first. -/
def PurchasePlanLine.sortKey (line : PurchasePlanLine) : WithBot Uuid ×ₗ String ×ₗ Uuid :=
  toLex (line.projectEntryId, toLex (casefold (line.selectedDistributor.getD ""), line.id))

/-- `purchase_plan_to_out`, the plan's own columns left out -/
def purchasePlanToOut (planLines : List PurchasePlanLine) : PurchasePlanOut :=
  let lines := planLines.insertionSort fun a b => a.sortKey casefold ≤ b.sortKey casefold
  let unfilledCount := lines.countP fun line => line.selectedDistributor = none
  { lines := lines
    distributorsUsed := ((lines.filterMap (·.selectedDistributor)).dedup).insertionSort
      fun a b => casefold a ≤ casefold b
    estTotalCost :=
      if unfilledCount ≠ 0 then none
      else some ((lines.filterMap fun line => line.selectedUnitPrice.map fun price =>
        price * (line.selectedQty.getD 0 : Decimal)).sum)
    worstLeadTimeDays := (lines.filterMap (·.selectedLeadTimeDays)).max?
    unfilledCount := unfilledCount }

end Casefold

end StockManager
