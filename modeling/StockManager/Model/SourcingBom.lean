import StockManager.Library.DecimalContext
import StockManager.Model.Coverage
import StockManager.Model.Builds
import StockManager.Model.Texts

/-! # Display currencies (domain/fx/rates.py, domain/fx/_apply.py) -/

namespace StockManager

/-- `str.upper`; what it made upper-case it leaves as it is, and it makes no white space. -/
structure Upper where
  upper : String → String
  settled : ∀ s, upper (strip (upper (strip s))) = upper (strip s)

inductive FxError
  /-- `decimal.DivisionByZero` or `decimal.InvalidOperation` -/
  | decimalError
  /-- A Pydantic `ValidationError` -/
  | invalidOffer
  deriving DecidableEq

/-- `_clean_currency`, `_clean_code` -/
def cleanCurrency (py : Upper) (value : Option String) : Option String :=
  value.bind fun text => if py.upper (strip text) = "" then none else some (py.upper (strip text))

/-- The rates of one day, base EUR, by upper-case code -/
abbrev Rates : Type := String → Option Decimal

def rateFor (rates : Rates) (currency : String) : Option Decimal :=
  if currency = "EUR" then some 1 else rates currency

/-- `(amount / source_rate) * target_rate`, at four decimals -/
def crossRate (amount sourceRate targetRate : Decimal) : Except FxError Decimal :=
  if sourceRate = 0 then .error .decimalError
  else Outcome.orRaise (DecimalContext.quantize DecimalContext.roundHalfUp 4
    (DecimalContext.round (DecimalContext.round (amount / sourceRate) * targetRate))) .decimalError

def convert (py : Upper) (rates : Rates) (fromCurrency toCurrency : String) (amount : Decimal) :
    Except FxError (Option Decimal) :=
  let source := py.upper (strip fromCurrency)
  let target := py.upper (strip toCurrency)
  if source = "" ∨ target = "" then .ok none
  else match rateFor rates source, rateFor rates target with
    | some sourceRate, some targetRate => (crossRate amount sourceRate targetRate).map some
    | _, _ => .ok none

inductive FxStatus
  | ok | unavailable
  deriving DecidableEq

def convertedPriceBreaks (py : Upper) (rates : Rates) (fromCurrency toCurrency : String)
    (priceBreaks : List PriceBreak) : Except FxError (Option (List PriceBreak)) := do
  let converted ← priceBreaks.mapM fun priceBreak =>
    (convert py rates fromCurrency toCurrency priceBreak.unitPrice).map fun price =>
      price.map (PriceBreak.mk priceBreak.quantity)
  return converted.mapM id

/-- What `apply_fx_to_offer` answers for a priced offer in another currency; `none` is a failed
fetch of the rates. -/
def convertOffer (py : Upper) (rates : Option Rates) (native requested : String) (price : Decimal)
    (offer : SourcingBomOfferOut) : Except FxError (SourcingBomOfferOut × FxStatus) :=
  match rates with
  | none => .ok (offer, .unavailable)
  | some rates => do
    match ← convert py rates native requested price with
    | none => return (offer, .unavailable)
    | some converted =>
      match ← convertedPriceBreaks py rates native requested offer.priceBreaks with
      | none => return (offer, .unavailable)
      | some breaks =>
        let shown := { offer with
          unitPriceConverted := some converted
          currencyDisplayed := some requested
          priceBreaksConverted := some breaks }
        return (shown, .ok)

def applyFxToOffer (py : Upper) (requestedCurrency : Option String) (rates : Option Rates)
    (offer : SourcingBomOfferOut) : Except FxError (SourcingBomOfferOut × FxStatus) :=
  let native := cleanCurrency py offer.currency
  let shown := { offer with currencyDisplayed := native }
  match cleanCurrency py requestedCurrency, native, offer.unitPrice with
  | some requested, some native, some price =>
    if native = requested then .ok (shown, .ok) else convertOffer py rates native requested price shown
  | _, _, _ => .ok (shown, .ok)

end StockManager

/-! ## Sourced BOM lines and their costs (domain/sourcing/service.py, domain/sourcing/coverage.py) -/

namespace StockManager

/-! ### Search results -/

structure SourcingDistributor where
  name : String
  stock : Option ℤ
  unitPrice : Option Decimal
  currency : Option String
  packaging : Option String
  moq : Option ℤ
  leadTimeDays : Option ℤ
  priceBreaks : List PriceBreak
  productUrl : Option String

structure SourcingOffer where
  mpn : Option String
  primaryLink : Option String
  distributors : List SourcingDistributor

/-- The offers of each searched MPN, by its case-folded text -/
abbrev SearchResults : Type := List (String × List SourcingOffer)

/-- The breaks, or the unit price from the minimum order on -/
def listedBreaks (distributor : SourcingDistributor) : List PriceBreak :=
  if distributor.priceBreaks = [] then
    distributor.unitPrice.toList.map (PriceBreak.mk (max 1 (moqOrOne distributor.moq)))
  else distributor.priceBreaks

def unitPriceForDistributor (distributor : SourcingDistributor) (qty : ℤ) : Option Decimal :=
  (bestUnitPriceAtQty (listedBreaks distributor) qty).map Prod.fst

def priceBreaksForDistributor (distributor : SourcingDistributor) : List PriceBreak :=
  (listedBreaks distributor).filterMap fun item =>
    (bestUnitPriceAtQty [item] 1).map fun best => ⟨best.2, best.1⟩

theorem leadTime_bound {leadTimeDays : Option ℤ}
    (h : ∀ days ∈ leadTimeDays, 0 ≤ days ∧ days < infiniteLeadTimeDays) :
    ∀ days ∈ leadTimeDays.map Int.toNat, days < infiniteLeadTimeDays := by
  intro days hdays
  obtain ⟨n, hn, rfl⟩ := Option.map_eq_some_iff.mp hdays
  have hbound := h n hn
  omega

/-- The offer of a distributor, which Pydantic validates. -/
def joinedOffer (mpn : String) (qty : ℤ) (offer : SourcingOffer) (distributor : SourcingDistributor) :
    Except FxError SourcingBomOfferOut :=
  if h : ∀ days ∈ distributor.leadTimeDays, 0 ≤ days ∧ days < infiniteLeadTimeDays then .ok
    { mpn := match offer.mpn with
        | some text => if text = "" then mpn else text
        | none => mpn
      distributor := distributor.name
      stock := max 0 (distributor.stock.getD 0)
      unitPrice := unitPriceForDistributor distributor qty
      currency := distributor.currency
      unitPriceConverted := none
      currencyDisplayed := none
      packaging := distributor.packaging
      moq := distributor.moq
      leadTimeDays := distributor.leadTimeDays.map Int.toNat
      priceBreaks := priceBreaksForDistributor distributor
      priceBreaksConverted := none
      url := match distributor.productUrl with
        | some url => if url = "" then offer.primaryLink else some url
        | none => offer.primaryLink
      leadTimeBound := leadTime_bound h }
  else .error .invalidOffer

section Casefold

variable (casefold : String → String)

def joinedOffers (mpns : List String) (searchResults : SearchResults) (qty : ℤ) :
    Except FxError (List SourcingBomOfferOut) :=
  (mpns.flatMap fun mpn => ((Dict.find (casefold mpn) searchResults).getD []).flatMap fun offer =>
    offer.distributors.map fun distributor => (mpn, offer, distributor)).mapM fun item =>
      joinedOffer item.1 qty item.2.1 item.2.2

def dedupeMpns (mpns : List (Option String)) : List String :=
  (mpns.foldl (fun found mpn =>
    match mpn with
    | none => found
    | some text =>
      if strip text = "" ∨ casefold (strip text) ∈ found.map Prod.fst then found
      else found ++ [(casefold (strip text), strip text)]) []).map Prod.snd

end Casefold

/-! ### Lines -/

/-- A line of `source_bom`. The best offer is one of the objects in `offers`, so it stands here as
its place: whatever changes the offers changes it too. -/
structure SourcedLine where
  projectEntryId : Uuid
  partId : Uuid
  mpn : Option String
  required : ℤ
  available : ℤ
  substituteAvailable : ℤ
  shortBy : ℤ
  authorizedStock : ℤ
  offers : List SourcingBomOfferOut
  bestPlace : Option ℕ
  estExtendedCost : Option Decimal
  fxUnavailable : Bool
  deriving DecidableEq

def SourcedLine.bestOffer (line : SourcedLine) : Option SourcingBomOfferOut :=
  line.bestPlace.bind fun place => line.offers[place]?

/-- One turn of the loop of `_best_offer_at_qty`; `_offer_unit_price_at_qty` is `_offer_unit_price`. -/
def cheaperPlace (qty : ℤ) (best : Option (Decimal × ℕ)) (item : SourcingBomOfferOut × ℕ) :
    Option (Decimal × ℕ) :=
  match offerUnitPrice item.1 qty, best with
  | none, _ => best
  | some price, none => some (price, item.2)
  | some price, some old => if price < old.1 then some (price, item.2) else best

/-- `_best_offer_at_qty`, by the place of the offer -/
def bestOfferAtQty (offers : List SourcingBomOfferOut) (qty : ℤ) : Option ℕ :=
  if qty < 1 then none else (offers.zipIdx.foldl (cheaperPlace qty) none).map Prod.snd

/-- `_offer_extended_cost` of sourcing/service.py -/
def lineExtendedCost (offer : Option SourcingBomOfferOut) (qty : ℤ) : Except FxError (Option Decimal) :=
  match offer with
  | none => .ok none
  | some offer =>
    if qty < 0 then .ok none
    else if qty = 0 then .ok (some 0)
    else match offerUnitPrice offer qty with
      | none => .ok none
      | some price => (Outcome.orRaise (DecimalContext.quantize DecimalContext.roundHalfUp 4
          (DecimalContext.round (price * qty))) .decimalError).map some

/-- An `int` field takes a whole `Decimal` only. -/
def wholeField (value : Decimal) : Except FxError ℤ :=
  if value.den = 1 then .ok value.num else .error .invalidOffer

/-- The parts of the workspace, with their MPNs -/
abbrev PartMpns : Type := Uuid → Option (Option String)

/-- `_bom_line_candidates` -/
def candidateMpns (casefold : String → String) (partMpns : PartMpns) (row : ShortageRow) : List String :=
  dedupeMpns casefold ((row.partId :: row.substituteIds).filterMap partMpns)

def sourceBomLine (casefold : String → String) (partMpns : PartMpns) (searchResults : SearchResults)
    (row : ShortageRow) : Except FxError SourcedLine := do
  let shortBy := ⌈row.shortBy⌉
  let offers ← joinedOffers casefold (candidateMpns casefold partMpns row) searchResults (max shortBy 1)
  let bestPlace := bestOfferAtQty offers shortBy
  let estExtendedCost ← lineExtendedCost (bestPlace.bind fun place => offers[place]?) shortBy
  let available ← wholeField row.available
  let substituteAvailable ← wholeField row.substituteAvailable
  return {
    projectEntryId := row.projectEntryId
    partId := row.partId
    mpn := (partMpns row.partId).join
    required := row.required
    available := available
    substituteAvailable := substituteAvailable
    shortBy := shortBy
    authorizedStock := (offers.map (·.stock)).sum
    offers := offers
    bestPlace := bestPlace
    estExtendedCost := estExtendedCost
    fxUnavailable := false }

/-! ### Conversion -/

inductive SourcingFxStatus
  | ok | unavailable | incomplete
  deriving DecidableEq

/-- The cost is taken again where a currency is requested. -/
def displayedCost (py : Upper) (requestedCurrency : Option String) (line : SourcedLine) :
    Except FxError (Option Decimal) :=
  if (cleanCurrency py requestedCurrency).isSome then lineExtendedCost line.bestOffer line.shortBy
  else .ok line.estExtendedCost

/-- The offers of a line are converted in place. -/
def applyFxToLine (py : Upper) (requestedCurrency : Option String) (rates : Option Rates)
    (line : SourcedLine) : Except FxError (SourcedLine × List FxStatus) := do
  let converted ← line.offers.mapM (applyFxToOffer py requestedCurrency rates)
  let shown := { line with
    offers := converted.map Prod.fst
    fxUnavailable := decide (∃ item ∈ converted, item.2 = FxStatus.unavailable) }
  let estExtendedCost ← displayedCost py requestedCurrency shown
  return ({ shown with estExtendedCost := estExtendedCost }, converted.map Prod.snd)

def applyFxToBomRows (py : Upper) (requestedCurrency : Option String) (rates : Option Rates)
    (rows : List SourcedLine) : Except FxError (List SourcedLine × Option SourcingFxStatus) := do
  let converted ← rows.mapM (applyFxToLine py requestedCurrency rates)
  let statuses := (converted.map Prod.snd).flatten
  let fxStatus :=
    if (cleanCurrency py requestedCurrency).isNone then none
    else if ∀ status ∈ statuses, status = FxStatus.ok then some SourcingFxStatus.ok
    else if ∀ status ∈ statuses, status = FxStatus.unavailable then some SourcingFxStatus.unavailable
    else some SourcingFxStatus.incomplete
  return (converted.map Prod.fst, fxStatus)

/-! ### Costs of a build -/

section Costs

variable (py : Upper)

def offerDisplayCurrency (offer : SourcingBomOfferOut) : Option String :=
  (cleanCurrency py offer.currencyDisplayed).or (cleanCurrency py offer.currency)

def bestCurrencies (rows : List SourcedLine) : List String :=
  (rows.filterMap SourcedLine.bestOffer).filterMap (offerDisplayCurrency py)

/-- The currency of the converted best offers, or of all of them, when it is one. -/
def totalCurrency (rows : List SourcedLine) : Option String :=
  let converted := ((rows.filterMap SourcedLine.bestOffer).filter fun offer =>
    offer.unitPriceConverted.isSome ∧ offer.currencyDisplayed.isSome).map fun offer =>
      cleanCurrency py offer.currencyDisplayed
  match converted, bestCurrencies py rows with
  | first :: rest, _ => if ∀ currency ∈ rest, currency = first then first else none
  | [], first :: rest => if ∀ currency ∈ rest, currency = first then some first else none
  | [], [] => none

def hasMixedOfferCurrencies (rows : List SourcedLine) : Bool := 1 < (bestCurrencies py rows).dedup.length

def bestOfferPricedForTotal (offer : SourcingBomOfferOut) (total : Option String) :
    Option (Decimal × Option String) :=
  let offerCurrency := offerDisplayCurrency py offer
  let native := cleanCurrency py offer.currency
  let displayed := cleanCurrency py offer.currencyDisplayed
  if total.isSome ∧ offerCurrency.isSome ∧ offerCurrency ≠ total then none
  else match offer.unitPriceConverted, offer.currencyDisplayed with
    | some price, some _ => some (price, displayed)
    | _, _ =>
      if native.isSome ∧ displayed.isSome ∧ native ≠ displayed then none
      else offer.unitPrice.map fun price => (price, offerCurrency)

structure CostAddend where
  unitPrice : Decimal
  currency : Option String
  quantity : ℤ
  deriving DecidableEq

/-- What `_sum_best_offer_cost` adds up -/
def costAddends (rows : List SourcedLine) (quantityForRow : SourcedLine → ℤ) : List CostAddend :=
  rows.filterMap fun row =>
    if quantityForRow row ≤ 0 then none
    else row.bestOffer.bind fun offer =>
      (bestOfferPricedForTotal py offer (totalCurrency py rows)).map fun priced =>
        ⟨priced.1, priced.2, quantityForRow row⟩

/-- `running += unit_price * Decimal(qty)` -/
def sumAddends (addends : List CostAddend) : Decimal :=
  addends.foldl (fun running addend => DecimalContext.round
    (running + DecimalContext.round (addend.unitPrice * addend.quantity))) 0

def sumBestOfferCost (rows : List SourcedLine) (quantityForRow : SourcedLine → ℤ) : Option Decimal :=
  if (totalCurrency py rows).isNone ∧ hasMixedOfferCurrencies py rows then none
  else if costAddends py rows quantityForRow = [] then none
  else some (sumAddends (costAddends py rows quantityForRow))

/-- What the capacity of a build reads of a line -/
def SourcedLine.capacityLine (line : SourcedLine) : SourcingBomLineOut where
  projectEntryId := line.projectEntryId
  partId := line.partId
  mpn := line.mpn
  required := line.required
  available := line.available
  substituteAvailable := line.substituteAvailable
  shortBy := line.shortBy
  authorizedStock := line.authorizedStock
  offers := line.offers
  riskFlags := []

def effectiveLines (rows : List SourcedLine) : List SourcedLine := rows.filter fun row => 0 < row.required

/-- The rows that a purchase pays for -/
def payableLines (rows : List SourcedLine) (buildQuantity : ℤ) : List SourcedLine :=
  let effective := effectiveLines rows
  let blocking := (computeBuildCapacity (rows.map SourcedLine.capacityLine) buildQuantity).blockingLinesAfterPurchase
  let payable := effective.filter fun row => row.projectEntryId ∉ blocking
  if payable = [] ∧ ∃ row ∈ effective, 0 < row.shortBy then effective else payable

def totalBomCost (rows : List SourcedLine) : Option Decimal :=
  sumBestOfferCost py (effectiveLines rows) SourcedLine.required

def purchaseToPayCost (rows : List SourcedLine) (buildQuantity : ℤ) : Option Decimal :=
  if effectiveLines rows = [] then none
  else if ∀ row ∈ effectiveLines rows, row.shortBy = 0 then some 0
  else sumBestOfferCost py (payableLines rows buildQuantity) SourcedLine.shortBy

end Costs

/-! ### `source_bom` -/

structure SourcingBomOut where
  rows : List SourcedLine
  totalBomCost : Option Decimal
  purchaseToPayCost : Option Decimal
  fxStatus : Option SourcingFxStatus

/-- The shortage rows, the parts and the search results are at hand. -/
def sourceBom (py : Upper) (casefold : String → String) (partMpns : PartMpns) (searchResults : SearchResults)
    (requestedCurrency : Option String) (rates : Option Rates) (buildQuantity : ℤ)
    (shortage : List ShortageRow) : Except FxError SourcingBomOut := do
  let rows ← shortage.mapM (sourceBomLine casefold partMpns searchResults)
  let converted ← applyFxToBomRows py requestedCurrency rates rows
  return {
    rows := converted.1
    totalBomCost := totalBomCost py converted.1
    purchaseToPayCost := purchaseToPayCost py converted.1 buildQuantity
    fxStatus := converted.2 }

end StockManager
