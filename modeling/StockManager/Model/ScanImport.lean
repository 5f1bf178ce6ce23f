import StockManager.Library.Savepoints
import StockManager.Model.Budget
import StockManager.Model.System

/-! # Imports of scanned bags (api/routes/parts_scan.py)

A request imports its rows one after another, each inside a savepoint of its own,
and commits once at the end. Requests run at the same time under READ COMMITTED,
beside requests that archive and restore parts. What a provider answers, and what
the category and spec services make of a record, is given with the request. -/

namespace StockManager.Scans

open Savepoints

/-! ### Bag signatures (services/bag_signature.py) -/

/-- The white space `trim()` of ECMAScript removes. -/
def isJsSpace (c : Char) : Bool :=
  (0x09 ≤ c.toNat ∧ c.toNat ≤ 0x0d) ∨ (0x2000 ≤ c.toNat ∧ c.toNat ≤ 0x200a) ∨
    c.toNat ∈ [0x20, 0xa0, 0x1680, 0x2028, 0x2029, 0x202f, 0x205f, 0x3000, 0xfeff]

def jsTrim (s : String) : String :=
  String.ofList ((s.toList.dropWhile isJsSpace).reverse.dropWhile isJsSpace).reverse

/-- `_CONTROL_PICTURES` -/
def controlPicture (c : Char) : Char :=
  match c.toNat with
  | 0x2404 => Char.ofNat 0x04
  | 0x241c => Char.ofNat 0x1c
  | 0x241d => Char.ofNat 0x1d
  | 0x241e => Char.ofNat 0x1e
  | 0x241f => Char.ofNat 0x1f
  | 0x2420 => ' '
  | _ => c

/-- The two SHA-256 digests: of a text, and of the rows of a request. -/
structure Digests (ρ : Type) where
  sha256 : String → String
  contentKey : Uuid → List ρ → String

def computeBagSignature (sha256 : String → String) (raw : String) : Option String :=
  let normalised := (jsTrim raw).map controlPicture
  if normalised = "" then none else some (sha256 normalised)

/-! ### Request bodies -/

/-- `^[a-f0-9]{64}$` -/
def IsBagSignature (s : String) : Prop :=
  s.length = 64 ∧ ∀ c ∈ s.toList, c ∈ "0123456789abcdef".toList

structure ScanImportRow where
  mpn : String
  quantity : Option ℕ
  storageLocationId : Option Uuid
  lotName : Option String
  lotSerial : Option String
  comments : Option String
  bagSignature : Option String
  rawBagCode : Option String
  bagSignaturePattern : ∀ signature ∈ bagSignature, IsBagSignature signature

structure ScanImportIn where
  rows : List ScanImportRow
  idempotencyKey : Option String

/-- What a provider knows of a part number. -/
structure ProviderRecord where
  mpn : Option String
  manufacturer : Option String
  description : Option String
  footprint : Option String

structure Lookup where
  found : Bool
  result : Option ProviderRecord
  message : Option String
  candidates : ℕ

/-- How `lookup_with_cache` ends. -/
inductive Answer
  | reply (lookup : Lookup)
  | timeout (message : String)
  | raised (message : String)

/-- What the category, spec and naming services settle for a new part. -/
structure Described where
  categoryId : Option Uuid
  categorySuggestion : Option String
  specs : List (String × String)
  name : Option String

/-- What a row meets: the clock, the provider, the services, and a database that may
refuse the part or the stock. -/
structure RowEvents where
  late : Bool
  answer : Answer
  partRefused : Option String
  described : Except String Described
  stockRefused : Option String

/-! ### Results -/

inductive ScanError
  | err (e : Err)
  | raised (message : String)
  deriving DecidableEq

/-- The message of a `StockError`. -/
def ScanError.stockMessage : ScanError → Option String
  | .err (.stock message) => some message
  | .err (.stockConflict message _ _) => some message
  | _ => none

structure CreatedRow where
  partId : Uuid
  quantityAdded : ℕ
  stockError : Option String
  categorySuggestion : Option String
  candidateCount : Option ℕ
  selectedManufacturer : Option String
  deriving DecidableEq

inductive RowStatus
  | deadlineExceeded | invalid | bagSignatureMismatch | bagRescan | duplicate | lookupFailed
  | rowFailed | created
  deriving DecidableEq

/-- What a row's result says besides its MPN. -/
inductive RowOutcome
  | deadlineExceeded
  | invalid (error : String)
  | bagSignatureMismatch
  | bagRescan (partId lotId storageLocationId : Option Uuid) (quantity : Decimal)
  | duplicate (partId : Uuid)
  | lookupFailed (error : String)
  | rowFailed (error : ScanError)
  | created (row : CreatedRow)
  deriving DecidableEq

def RowOutcome.status : RowOutcome → RowStatus
  | .deadlineExceeded => .deadlineExceeded
  | .invalid _ => .invalid
  | .bagSignatureMismatch => .bagSignatureMismatch
  | .bagRescan .. => .bagRescan
  | .duplicate _ => .duplicate
  | .lookupFailed _ => .lookupFailed
  | .rowFailed _ => .rowFailed
  | .created _ => .created

structure RowResult where
  mpn : String
  outcome : RowOutcome
  deriving DecidableEq

structure Report where
  rows : List RowResult
  summary : List (RowStatus × ℕ)
  needsDisambiguation : ℕ
  provider : String
  deriving DecidableEq

def summary (rows : List RowResult) : List (RowStatus × ℕ) :=
  [.created, .duplicate, .bagRescan, .bagSignatureMismatch, .lookupFailed, .invalid, .rowFailed,
    .deadlineExceeded].map fun status => (status, rows.countP (·.outcome.status = status))

def RowResult.needsDisambiguation (r : RowResult) : Bool :=
  match r.outcome with
  | .created row => row.candidateCount.isSome
  | _ => false

/-! ### Tables -/

/-- The columns of `parts` that only an import or a refresh writes. -/
structure PartColumns where
  partId : Uuid
  mpn : Option String
  manufacturer : Option String
  description : Option String
  footprint : Option String
  linkedProvider : String
  linkedExternalId : String
  categoryId : Option Uuid
  deriving DecidableEq

structure CustomField where
  partId : Uuid
  key : String
  value : String
  deriving DecidableEq

/-- `bulk_import_idempotency` -/
structure CacheRow where
  workspaceId : Uuid
  key : String
  resultJson : Report
  createdAt : Timestamp
  deriving DecidableEq

/-- The tables, and the time. -/
structure ScanState where
  parts : PartsDb
  columns : List PartColumns
  customFields : List CustomField
  cache : List CacheRow
  now : Timestamp

namespace ScanState

variable (s : ScanState)

abbrev db : Db := s.parts.db

def mpnOf (partId : Uuid) : Option String :=
  (s.columns.find? (·.partId = partId)).bind (·.mpn)

/-- An active part that has the MPN. -/
def HasMpn (workspaceId : Uuid) (mpn : String) (p : Part) : Prop :=
  p.workspaceId = workspaceId ∧ ¬ s.parts.isArchived p.id ∧ s.mpnOf p.id = some mpn

instance (workspaceId : Uuid) (mpn : String) (p : Part) : Decidable (s.HasMpn workspaceId mpn p) :=
  inferInstanceAs (Decidable (_ ∧ _ ∧ _))

def activePartByMpn (workspaceId : Uuid) (mpn : String) : Option Part :=
  if mpn = "" then none else s.db.parts.find? (s.HasMpn workspaceId mpn)

/-- The last import of the bag. -/
def priorImport (workspaceId : Uuid) (signature : String) : Option StockEntry :=
  ((s.db.stockEntries.filter fun e => e.workspaceId = workspaceId ∧ e.bagSignature = some signature
    ).mergeSort fun x y => y.occurredAt ≤ x.occurredAt).head?

def cached (workspaceId : Uuid) (key : String) : Option CacheRow :=
  s.cache.find? fun row => row.workspaceId = workspaceId ∧ row.key = key

end ScanState

/-! ### Writes -/

inductive ScanWrite
  | insertPart (part : Part) (columns : PartColumns)
  | describePart (partId : Uuid) (described : Described)
  | insertLot (row : Lot)
  | insertStockEntry (row : StockEntry)
  | archivePart (workspaceId partId : Uuid) (mpn : Option String) (at_ : Timestamp)
  | restorePart (workspaceId partId : Uuid) (mpn : Option String)
  | sweep (rows : List CacheRow)
  | insertCache (row : CacheRow)

/-- The keys of the primary keys and of `uq_parts_ws_mpn`. -/
inductive ScanKey
  | part (id : Uuid)
  | mpn (workspaceId : Uuid) (mpn : String)
  | lot (id : Uuid)
  | stockEntry (id : Uuid)
  | cache (workspaceId : Uuid) (key : String)
  deriving DecidableEq

namespace ScanWrite

def mpnKeys (workspaceId : Uuid) (mpn : Option String) : List ScanKey :=
  (mpn.map (ScanKey.mpn workspaceId)).toList

def keys : ScanWrite → List ScanKey
  | insertPart part columns => .part part.id :: mpnKeys part.workspaceId columns.mpn
  | describePart partId _ => [.part partId]
  | insertLot row => [.lot row.id]
  | insertStockEntry row => [.stockEntry row.id]
  | archivePart workspaceId partId mpn _ => .part partId :: mpnKeys workspaceId mpn
  | restorePart workspaceId partId mpn => .part partId :: mpnKeys workspaceId mpn
  | sweep rows => rows.map fun row => .cache row.workspaceId row.key
  | insertCache row => [.cache row.workspaceId row.key]

def describe (partId : Uuid) (d : Described) (s : ScanState) : ScanState :=
  { s with
    parts :=
      { s.parts with
        db :=
          { s.db with
            parts := s.db.parts.map fun p =>
              if p.id = partId then { p with name := d.name.getD p.name } else p } }
    columns := s.columns.map fun c =>
      if c.partId = partId then { c with categoryId := d.categoryId } else c
    customFields := s.customFields ++ d.specs.map fun spec => ⟨partId, spec.1, spec.2⟩ }

def apply : ScanWrite → ScanState → ScanState
  | insertPart part columns, s =>
    { s with
      parts := { s.parts with db := { s.db with parts := s.db.parts ++ [part] } }
      columns := s.columns ++ [columns] }
  | describePart partId d, s => describe partId d s
  | insertLot row, s =>
    { s with parts := { s.parts with db := { s.db with lots := s.db.lots ++ [row] } } }
  | insertStockEntry row, s =>
    { s with parts := { s.parts with db := { s.db with stockEntries := s.db.stockEntries ++ [row] } } }
  | archivePart _ partId _ at_, s =>
    { s with parts := { s.parts with archivedAt := Dict.put partId at_ s.parts.archivedAt } }
  | restorePart _ partId _, s =>
    { s with parts := { s.parts with archivedAt := Dict.erase partId s.parts.archivedAt } }
  | sweep rows, s => { s with cache := s.cache.filter fun row => row ∉ rows }
  | insertCache row, s => { s with cache := s.cache ++ [row] }

/-- Another active part has the MPN. -/
def mpnClash (workspaceId partId : Uuid) (mpn : Option String) (s : ScanState) : Prop :=
  ∃ p ∈ s.db.parts, p.id ≠ partId ∧ ∃ m ∈ mpn, s.HasMpn workspaceId m p

instance (workspaceId partId : Uuid) (mpn : Option String) (s : ScanState) :
    Decidable (mpnClash workspaceId partId mpn s) :=
  inferInstanceAs (Decidable (∃ p ∈ s.db.parts, p.id ≠ partId ∧ ∃ m ∈ mpn, s.HasMpn workspaceId m p))

/-- The constraint the write violates. -/
def clash : ScanWrite → ScanState → Option String
  | insertPart part columns, s =>
    if ∃ p ∈ s.db.parts, p.id = part.id then some "parts_pkey"
    else if mpnClash part.workspaceId part.id columns.mpn s then some "uq_parts_ws_mpn"
    else none
  | restorePart workspaceId partId mpn, s =>
    if mpnClash workspaceId partId mpn s then some "uq_parts_ws_mpn" else none
  | insertLot row, s => if ∃ r ∈ s.db.lots, r.id = row.id then some "lots_pkey" else none
  | insertStockEntry row, s =>
    if ∃ r ∈ s.db.stockEntries, r.id = row.id then some "stock_entries_pkey" else none
  | insertCache row, s =>
    if (s.cached row.workspaceId row.key).isSome then some "bulk_import_idempotency_pkey" else none
  | _, _ => none

end ScanWrite

def store : Store ScanState ScanWrite ScanKey String := ⟨ScanWrite.apply, ScanWrite.keys, ScanWrite.clash⟩

abbrev ScanProg (α : Type) : Type := Prog ScanState ScanWrite String ScanError α

/-- A flush: an index that is violated raises an `IntegrityError`. -/
def flush (o : ScanWrite) : ScanProg Unit := Prog.put o fun index => .err (.integrity index)

/-- An exception the surroundings may raise here. -/
def mayRaise (refused : Option String) : ScanProg Unit :=
  refused.elim (pure ()) fun message => Prog.fail (.raised message)

/-! ### One row -/

/-- `value or fallback` -/
def orElse (value : Option String) (fallback : String) : String :=
  if value.getD "" = "" then fallback else value.getD ""

def nonEmpty (value : Option String) : Option String := value.filter (· ≠ "")

section Row

variable (d : Digests ScanImportRow) (ctx : Ctx) (providerName : String)

def newPart (row : ScanImportRow) (mpn : String) (r : ProviderRecord) : Part where
  id := ctx.uuid4
  workspaceId := ctx.workspaceId
  name :=
    let stripped := strip (r.mpn.getD "")
    String.ofList ((if stripped = "" then mpn else stripped).toList.take 300)
  partType := .linked
  attritionPercentage := 0
  attritionMinQuantity := 0
  unitOfMeasure := defaultUnit
  defaultStorageLocationId := row.storageLocationId
  defaultStorageMandatory := false
  serialized := false

def newColumns (mpn : String) (r : ProviderRecord) : PartColumns where
  partId := ctx.uuid4
  mpn := some (orElse r.mpn mpn)
  manufacturer := nonEmpty r.manufacturer
  description := nonEmpty r.description
  footprint := nonEmpty r.footprint
  linkedProvider := providerName
  linkedExternalId := orElse r.mpn mpn
  categoryId := none

/-- The new part, and the category the provider names where the workspace has none. -/
def createFromProviderLookup (row : ScanImportRow) (mpn : String) (r : ProviderRecord)
    (events : RowEvents) : ScanProg (Part × Option String) := do
  let part := newPart ctx row mpn r
  mayRaise events.partRefused
  flush (.insertPart part (newColumns ctx providerName mpn r))
  let described ← Prog.ofExcept (events.described.mapError .raised)
  flush (.describePart part.id described)
  return (part, described.categorySuggestion)

/-- `add_stock`, which reads what it needs at one moment and flushes the rows it makes. -/
def addStockRows (payload : AddStockIn) : ScanProg Unit := do
  let added ← Prog.ask fun s =>
    (addStock ctx s.db payload).map fun (e, db) => (db.lots.drop s.db.lots.length, e)
  let (lots, e) ← Prog.ofExcept (added.mapError .err)
  lots.head?.elim (pure ()) fun lot => flush (.insertLot lot)
  flush (.insertStockEntry e)

theorem stockPayload_pos {quantity : ℕ} (h : 0 < quantity) : (0 : ℤ) < quantity := by omega

def stockPayload (row : ScanImportRow) (partId : Uuid) (quantity : ℕ) (h : 0 < quantity) :
    AddStockIn where
  partId := partId
  quantity := quantity
  storageLocationId := row.storageLocationId
  price := none
  lot :=
    if nonEmpty row.lotName = none ∧ nonEmpty row.lotSerial = none then none
    else some ⟨row.lotName, none, none, row.lotSerial⟩
  comments := row.comments
  bagSignature := row.bagSignature
  quantityPos := stockPayload_pos h

def initialAddition (row : ScanImportRow) (part : Part) (events : RowEvents)
    (h : 0 < row.quantity.getD 0) : ScanProg Unit := do
  mayRaise events.stockRefused
  addStockRows (ctx.child 0) (stockPayload row part.id (row.quantity.getD 0) h)

/-- The initial stock: what was added, or the message of the `StockError` that prevented it. -/
def initialStock (row : ScanImportRow) (part : Part) (events : RowEvents) :
    ScanProg (ℕ × Option String) :=
  if h : 0 < row.quantity.getD 0 then do
    let outcome ← Prog.nested (initialAddition ctx row part events h)
    match outcome with
    | .ok _ => return (row.quantity.getD 0, none)
    | .error e => e.stockMessage.elim (Prog.fail e) fun message => return (0, some message)
  else
    return (0, none)

def importOneScanRow (row : ScanImportRow) (mpn : String) (lookup : Lookup) (r : ProviderRecord)
    (events : RowEvents) : ScanProg CreatedRow := do
  let (part, categorySuggestion) ← createFromProviderLookup ctx providerName row mpn r events
  let (quantityAdded, stockError) ← initialStock ctx row part events
  return {
    partId := part.id
    quantityAdded := quantityAdded
    stockError := stockError
    categorySuggestion := categorySuggestion
    candidateCount := if 1 < lookup.candidates then some lookup.candidates else none
    selectedManufacturer := if 1 < lookup.candidates then nonEmpty r.manufacturer else none }

/-- The handlers behind the savepoint of a row. -/
def failedRow (mpn : String) (e : ScanError) : ScanProg RowOutcome :=
  if e = .err (.integrity "uq_parts_ws_mpn") then do
    let existing ← Prog.ask (·.activePartByMpn ctx.workspaceId mpn)
    return existing.elim (.rowFailed e) fun p => .duplicate p.id
  else
    return .rowFailed e

def createdRow (row : ScanImportRow) (mpn : String) (lookup : Lookup) (r : ProviderRecord)
    (events : RowEvents) : ScanProg RowOutcome := do
  let outcome ← Prog.nested (importOneScanRow ctx providerName row mpn lookup r events)
  match outcome with
  | .ok created => return .created created
  | .error e => failedRow ctx mpn e

def lookedUpRow (row : ScanImportRow) (mpn : String) (events : RowEvents) : ScanProg RowOutcome :=
  match events.answer with
  | .timeout message => return .lookupFailed message
  | .raised message => return .lookupFailed message
  | .reply lookup =>
    match if lookup.found then lookup.result else none with
    | none => return .lookupFailed (orElse lookup.message "no match")
    | some r => createdRow ctx providerName row mpn lookup r events

def duplicateCheckedRow (row : ScanImportRow) (mpn : String) (events : RowEvents) :
    ScanProg RowOutcome := do
  let existing ← Prog.ask (·.activePartByMpn ctx.workspaceId mpn)
  match existing with
  | some p => return .duplicate p.id
  | none => lookedUpRow ctx providerName row mpn events

def rescanCheckedRow (row : ScanImportRow) (mpn : String) (events : RowEvents) :
    ScanProg RowOutcome :=
  match nonEmpty row.bagSignature with
  | none => duplicateCheckedRow ctx providerName row mpn events
  | some signature => do
    let prior ← Prog.ask (·.priorImport ctx.workspaceId signature)
    match prior with
    | some e => return .bagRescan e.partId e.lotId e.storageLocationId e.quantityDelta
    | none => duplicateCheckedRow ctx providerName row mpn events

/-- A signature that is not the one of the raw bag code. -/
def Mismatch (row : ScanImportRow) : Prop :=
  nonEmpty row.bagSignature ≠ none ∧
    ∃ raw ∈ row.rawBagCode, computeBagSignature d.sha256 raw ≠ row.bagSignature

instance (row : ScanImportRow) : Decidable (Mismatch d row) := inferInstanceAs (Decidable (_ ∧ _))

def locatedRow (row : ScanImportRow) (mpn : String) (events : RowEvents) : ScanProg RowOutcome := do
  let located ← Prog.ask fun s => decide (∀ id ∈ row.storageLocationId,
    ∃ l ∈ s.db.storageLocations, l.id = id ∧ l.workspaceId = ctx.workspaceId)
  if located = false then return .invalid "storage location not found in workspace"
  else if Mismatch d row then return .bagSignatureMismatch
  else rescanCheckedRow ctx providerName row mpn events

def scanRow (row : ScanImportRow) (events : RowEvents) : ScanProg RowResult := do
  let mpn := strip row.mpn
  if events.late then return ⟨if mpn = "" then row.mpn else mpn, .deadlineExceeded⟩
  else if mpn = "" then return ⟨row.mpn, .invalid "empty MPN"⟩
  else return ⟨mpn, ← locatedRow d ctx providerName row mpn events⟩

/-- The rows from the `n`-th on. -/
def scanRows (events : ℕ → RowEvents) : ℕ → List ScanImportRow → ScanProg (List RowResult)
  | _, [] => return []
  | n, row :: rest => do
    let result ← scanRow d (ctx.child n) providerName row (events n)
    let results ← scanRows events (n + 1) rest
    return result :: results

end Row

/-! ### Requests -/

/-- `_BULK_IMPORT_IDEMPOTENCY_TTL_H`, in microseconds -/
def idempotencyTtl : Timestamp := 24 * 60 * 60 * 1000000

structure ScanCall where
  ctx : Ctx
  provider : Option String
  payload : ScanImportIn
  events : ℕ → RowEvents

def ScanCall.explicitKey (call : ScanCall) : Option String :=
  nonEmpty (some (strip (call.payload.idempotencyKey.getD "")))

inductive Response
  | cached (report : Report)
  | imported (report : Report)
  | done
  deriving DecidableEq

/-- The rows of the workspace that are past their time. -/
def expiredRows (workspaceId : Uuid) (now : Timestamp) (s : ScanState) : List CacheRow :=
  s.cache.filter fun row => row.workspaceId = workspaceId ∧ row.createdAt + idempotencyTtl < now

def sweepExpired (call : ScanCall) : ScanProg Unit := do
  let now ← Prog.ask (·.now)
  let expired ← Prog.ask (expiredRows call.ctx.workspaceId now)
  flush (.sweep expired)

def providerNotConfigured : ScanError :=
  .err (.http 400 "part.provider_not_configured"
    "no parts provider configured (set one in Workspace settings)" .nothing)

def importScannedRows (d : Digests ScanImportRow) (call : ScanCall) : ScanProg Response := do
  let provider ← Prog.ofExcept (Outcome.orRaise call.provider providerNotConfigured)
  let rows ← scanRows d call.ctx provider call.events 0 call.payload.rows
  let report : Report :=
    ⟨rows, summary rows, rows.countP (·.needsDisambiguation), provider⟩
  let key := call.explicitKey.getD (d.contentKey call.ctx.workspaceId call.payload.rows)
  let now ← Prog.ask (·.now)
  -- `ON CONFLICT DO NOTHING`
  let _ ← Prog.tryPut (.insertCache ⟨call.ctx.workspaceId, key, report, now⟩)
  return .imported report

def bulkImportFromScan (d : Digests ScanImportRow) (call : ScanCall) : ScanProg Response := do
  sweepExpired call
  match call.explicitKey with
  | none => importScannedRows d call
  | some key =>
    let hit ← Prog.ask (·.cached call.ctx.workspaceId key)
    match hit with
    | some row => return .cached row.resultJson
    | none => importScannedRows d call

def archivePartRoute (ctx : Ctx) (partId : Uuid) : ScanProg Response := do
  let loaded ← Prog.ask fun s => (archivePart ctx s.parts partId).map fun _ =>
    if s.parts.isArchived partId then none else s.mpnOf partId
  let mpn ← Prog.ofExcept (loaded.mapError .err)
  flush (.archivePart ctx.workspaceId partId mpn ctx.utcnow)
  return .done

/-- The `UPDATE` is only sent where the part was archived. -/
def restorePartRoute (ctx : Ctx) (partId : Uuid) : ScanProg Response := do
  let loaded ← Prog.ask fun s => (restorePart ctx s.parts partId true).map fun _ =>
    (decide (s.parts.isArchived partId), s.mpnOf partId)
  let (archived, mpn) ← Prog.ofExcept (loaded.mapError .err)
  if archived then flush (.restorePart ctx.workspaceId partId mpn)
  return .done

inductive ScanRequest
  | bulkImport (call : ScanCall)
  | archive (ctx : Ctx) (partId : Uuid)
  | restore (ctx : Ctx) (partId : Uuid)

def ScanRequest.prog (d : Digests ScanImportRow) : ScanRequest → ScanProg Response
  | .bulkImport call => bulkImportFromScan d call
  | .archive ctx partId => archivePartRoute ctx partId
  | .restore ctx partId => restorePartRoute ctx partId

/-- Time goes on. -/
def tick (d : ℕ) (s : ScanState) : ScanState := { s with now := s.now + d }

abbrev ScanWorld (ι : Type) : Type := World ι ScanState ScanWrite String ScanError Response

/-- One step of the requests at work. -/
def scanStep {ι : Type} [DecidableEq ι] [Fintype ι] (d : Digests ScanImportRow)
    (reqs : ι → ScanRequest) : Act ι ℕ → ScanWorld ι → Option (ScanWorld ι) :=
  World.step store tick fun i => (reqs i).prog d

end StockManager.Scans
