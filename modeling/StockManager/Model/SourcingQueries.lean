import Mathlib.Data.String.Basic
import StockManager.Library.KeySort
import StockManager.Model.Budget

/-! # Sourcing queries (domain/sourcing/cache.py, service.py, alerts_evaluator.py) -/

namespace StockManager.SourcingQueries

open KeySort

/-- `str.upper` and `str.casefold` -/
structure CaseMaps where
  upper : String → String
  casefold : String → String

/-- The dictionary of `sourcing_search_query` -/
structure SearchQuery where
  workspaceId : Uuid
  provider : String
  mpn : String
  countryCode : Option String
  currencyCode : Option String
  languageCode : Option String
  distributors : List String
  inStockOnly : Bool
  useCachedData : Bool
  exactMatch : Bool
  deriving DecidableEq

/-- The arguments of `sourcing_search_query` -/
structure SearchRequest where
  workspaceId : Uuid
  provider : String
  mpn : String
  countryCode : Option String
  currencyCode : Option String
  languageCode : Option String
  distributors : Option (List String)
  inStockOnly : Bool
  useCachedData : Bool
  exactMatch : Bool

def allDistributors : List String :=
  ["DigiKey", "Mouser", "Farnell", "TME", "LCSC", "Arrow", "Newark", "RS Components", "element14",
    "Avnet", "Future Electronics", "Rutronik", "Distrelec", "Wurth Elektronik", "TTI", "Verical",
    "Heilind", "Master Electronics", "Chip 1 Exchange", "Rochester Electronics", "Jameco", "Adafruit",
    "SparkFun", "Seeed Studio"]

/-- A code without its case and the white space around it; a blank one is none. -/
def canonicalText (fold : String → String) : Option String → Option String
  | none => none
  | some value => if fold (strip value) = "" then none else some (fold (strip value))

def canonicalCode (py : CaseMaps) : Option String → Option String := canonicalText py.upper

def canonicalLanguage (py : CaseMaps) : Option String → Option String := canonicalText py.casefold

/-- `{item.casefold(): item for item in ALL_DISTRIBUTORS}` -/
def knownDistributors (py : CaseMaps) : List (String × String) :=
  (allDistributors.map fun item => (py.casefold item, item)).foldl
    (fun known item => Dict.put item.1 item.2 known) []

/-- The stripped names that are not blank -/
def namesOf (distributors : Option (List String)) : List String :=
  ((distributors.getD []).map strip).filter (· ≠ "")

def canonicalName (py : CaseMaps) (name : String) : String :=
  (Dict.find (py.casefold name) (knownDistributors py)).getD name

/-- `_canonical_distributors`; `order` is how the running process lists a set. -/
def canonicalDistributors (py : CaseMaps) (order : SetOrder String)
    (distributors : Option (List String)) : List String :=
  sortBy py.casefold (order.list ((namesOf distributors).map (canonicalName py)))

def sourcingSearchQuery (py : CaseMaps) (order : SetOrder String) (request : SearchRequest) :
    SearchQuery where
  workspaceId := request.workspaceId
  provider := py.casefold (strip request.provider)
  mpn := strip request.mpn
  countryCode := canonicalCode py request.countryCode
  currencyCode := canonicalCode py request.currencyCode
  languageCode := canonicalLanguage py request.languageCode
  distributors := canonicalDistributors py order request.distributors
  inStockOnly := request.inStockOnly
  useCachedData := request.useCachedData
  exactMatch := request.exactMatch

/-! ### The two callers -/

structure Workspace where
  id : Uuid
  sourcingProvider : Option String
  /-- The decrypted `sourcing_api_key_enc` -/
  sourcingApiKey : Option String
  sourcingCountryCode : Option String
  sourcingCurrencyCode : Option String
  sourcingLanguageCode : Option String
  sourcingPreferredDistributors : Option (List String)
  sourcingUseCachedForDashboards : Bool

structure SourcingAlert where
  id : Uuid
  alertType : String
  countryCode : Option String
  currencyCode : Option String
  distributorFilter : Option (List String)

def cleanCode (py : CaseMaps) : Option String → Option String := canonicalText py.upper

def cleanDistributors (distributors : Option (List String)) : Option (List String) :=
  match distributors with
  | none => none
  | some names => if namesOf (some names) = [] then none else some (namesOf (some names))

def distributorFilter (alert : SourcingAlert) : Option (List String) :=
  alert.distributorFilter.map fun names => namesOf (some names)

def effectiveDistributors (workspace : Workspace) (distributors : Option (List String)) :
    Option (List String) :=
  if distributors.isSome then cleanDistributors distributors
  else cleanDistributors workspace.sourcingPreferredDistributors

/-- The name and the language of `make_sourcing_provider`'s client -/
def makeSourcingProvider (workspace : Workspace) : Option (String × Option String) :=
  if workspace.sourcingProvider ≠ some "trustedparts" ∨ workspace.sourcingApiKey.getD "" = "" then none
  else some ("trustedparts", workspace.sourcingLanguageCode)

/-- `search(...)` up to its queries; `degraded` says that the budget forces cached data. -/
def searchQueries (py : CaseMaps) (order : SetOrder String) (workspace : Workspace)
    (mpns : List String) (country currency : Option String) (inStockOnly : Bool)
    (distributors : Option (List String)) (useCachedData : Option Bool) (degraded : Bool) :
    Except SourcingErr (List SearchQuery) := do
  let cleaned ← cleanMpns mpns
  match makeSourcingProvider workspace with
  | none => .error (.notConfigured "sourcing not configured")
  | some (name, language) =>
    return cleaned.map fun mpn => sourcingSearchQuery py order
      { workspaceId := workspace.id
        provider := name
        mpn := mpn
        countryCode := (cleanCode py country).or workspace.sourcingCountryCode
        currencyCode := (cleanCode py currency).or workspace.sourcingCurrencyCode
        languageCode := language
        distributors := effectiveDistributors workspace distributors
        inStockOnly := inStockOnly
        useCachedData := degraded || useCachedData.getD workspace.sourcingUseCachedForDashboards
        exactMatch := true }

/-- `_canonical_search_query_for_alert`, with the part's `mpn` -/
def canonicalSearchQueryForAlert (py : CaseMaps) (order : SetOrder String) (workspace : Workspace)
    (alert : SourcingAlert) (mpn : String) : SearchQuery :=
  sourcingSearchQuery py order
    { workspaceId := workspace.id
      provider := if workspace.sourcingProvider.getD "" = "" then "trustedparts"
        else workspace.sourcingProvider.getD ""
      mpn := mpn
      countryCode := (cleanCode py alert.countryCode).or workspace.sourcingCountryCode
      currencyCode := (cleanCode py alert.currencyCode).or workspace.sourcingCurrencyCode
      languageCode := workspace.sourcingLanguageCode
      distributors := effectiveDistributors workspace (distributorFilter alert)
      inStockOnly := false
      useCachedData := true
      exactMatch := true }

/-- The individual search of an alert (`_search_for_part`) -/
def alertSearchQueries (py : CaseMaps) (order : SetOrder String) (workspace : Workspace)
    (alert : SourcingAlert) (mpn : String) (degraded : Bool) : Except SourcingErr (List SearchQuery) :=
  searchQueries py order workspace [mpn] alert.countryCode alert.currencyCode false
    (distributorFilter alert) (some true) degraded

def searchAlertTypes : List String :=
  ["back_in_stock", "out_of_authorized_stock", "price_changed", "lifecycle_risk_changed",
    "supply_chain_risk_changed", "tariff_status_changed"]

/-- A row of the evaluation: `mpn` is that of the alert's part, when there is one. -/
structure AlertRow where
  workspace : Workspace
  alert : SourcingAlert
  mpn : Option String

/-- `_SearchGroupAlert` -/
structure SearchGroupAlert where
  workspace : Workspace
  alert : SourcingAlert
  mpn : String

/-- The rows that are grouped -/
def groupedAlerts (rows : List AlertRow) : List SearchGroupAlert :=
  (rows.filter fun row => row.alert.alertType ∈ searchAlertTypes).filterMap fun row =>
    if row.mpn.getD "" = "" then none else some ⟨row.workspace, row.alert, row.mpn.getD ""⟩

/-- `(workspace.id, canonical_query_hash(query))` -/
def groupKey {Digest : Type} (hash : SearchQuery → Digest) (py : CaseMaps) (order : SetOrder String)
    (item : SearchGroupAlert) : Uuid × Digest :=
  (item.workspace.id,
    hash (canonicalSearchQueryForAlert py order item.workspace item.alert item.mpn))

/-- The groups of `_prefetch_sourcing_searches` -/
def prefetchGroups {Digest : Type} [DecidableEq Digest] (hash : SearchQuery → Digest) (py : CaseMaps)
    (order : SetOrder String) (rows : List AlertRow) : List ((Uuid × Digest) × List SearchGroupAlert) :=
  Dict.gather (groupKey hash py order) id (groupedAlerts rows)

end StockManager.SourcingQueries
