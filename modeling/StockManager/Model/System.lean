import StockManager.Model.Routes

/-! # Requests

Every request that can touch the ledger, a storage location or a build, as one
type; `exec` is what the handler does inside its transaction. `get_db` commits
when the handler returns and rolls back when it raises, which is
`Outcome.run`. -/

namespace StockManager

/-- Arguments of `move_quantity`. Its callers hold a positive quantity: kitting
passes what `_sources_for` takes from a bucket. -/
structure MoveQuantityArgs where
  partId : Uuid
  quantity : Decimal
  sourceStorageLocationId : Option Uuid
  sourceLotId : Option Uuid
  destinationStorageLocationId : Uuid
  comments : Option String
  buildId : Option Uuid
  buildStageId : Option Uuid
  quantityPos : 0 < quantity

structure ConsumeLinesArgs where
  build : Build
  project : Project
  lines : List ConsumeLineIn
  entriesById : List (Uuid × ProjectEntry)
  requiredByEntry : List (Uuid × ℤ)
  now : Timestamp
  buildStageId : Option Uuid

/-- The services that write on-hand rows. -/
inductive LedgerOp
  | addStock (payload : AddStockIn)
  | removeStock (payload : RemoveStockIn)
  | moveStock (payload : MoveStockIn)
  | moveQuantity (args : MoveQuantityArgs)
  | adjustStock (payload : AdjustStockIn)
  | receive (order : Order) (payload : ReceiveIn)
  | applyConsumeLines (args : ConsumeLinesArgs)

def LedgerOp.exec (ctx : Ctx) (db : Db) : LedgerOp → Except Err Db
  | addStock payload => (StockManager.addStock ctx db payload).map Prod.snd
  | removeStock payload => (StockManager.removeStock ctx db payload).map Prod.snd
  | moveStock payload => (StockManager.moveStock ctx db payload).map Prod.snd
  | moveQuantity args => (StockManager.moveQuantity ctx db args.partId args.quantity
      args.sourceStorageLocationId args.sourceLotId args.destinationStorageLocationId
      args.comments args.buildId args.buildStageId).map Prod.snd
  | adjustStock payload => (StockManager.adjustStock ctx db payload).map Prod.snd
  | receive order payload => (StockManager.receive ctx db order payload).map Prod.snd
  | applyConsumeLines args => (StockManager.applyConsumeLines ctx db args.build args.project
      args.lines args.entriesById args.requiredByEntry args.now args.buildStageId).map Prod.snd

/-- Tables that only other handlers write; such a handler may leave anything in them. -/
structure Catalogue where
  workspaces : List Workspace
  parts : List Part
  partMetaMembers : List PartMetaMember
  partSubstitutes : List PartSubstitute
  projects : List Project
  projectEntries : List ProjectEntry
  orders : List Order
  orderEntries : List OrderEntry

def Db.withCatalogue (db : Db) (c : Catalogue) : Db :=
  { db with
    workspaces := c.workspaces
    parts := c.parts
    partMetaMembers := c.partMetaMembers
    partSubstitutes := c.partSubstitutes
    projects := c.projects
    projectEntries := c.projectEntries
    orders := c.orders
    orderEntries := c.orderEntries }

inductive Request
  | ledger (op : LedgerOp)
  | receiveOrder (orderId : Uuid) (payload : ReceiveIn)
  | createBuild (payload : BuildCreateIn)
  | patchBuild (buildId : Uuid) (payload : BuildPatchIn)
  | archiveBuild (buildId : Uuid)
  | restoreBuild (buildId : Uuid)
  | consumeBuild (buildId : Uuid) (payload : ConsumeIn)
  | createBuildStage (buildId : Uuid) (payload : BuildStageCreateIn)
  | consumeBuildStage (buildId stageId : Uuid) (payload : ConsumeIn)
  | buildKit (buildId storageLocationId : Uuid)
  | buildStageKit (buildId stageId storageLocationId : Uuid)
  | createStorage (payload : StorageIn)
  | patchStorage (storageId : Uuid) (payload : StoragePatch)
  | archiveStorage (storageId : Uuid)
  | restoreStorage (storageId : Uuid)
  | editCatalogue (catalogue : Catalogue)

structure Call where
  ctx : Ctx
  request : Request

def exec (call : Call) (db : Db) : Except Err Db :=
  let ctx := call.ctx
  match call.request with
  | .ledger op => op.exec ctx db
  | .receiveOrder orderId payload => (receiveOrder ctx db orderId payload).map Prod.snd
  | .createBuild payload => (createBuild ctx db payload).map Prod.snd
  | .patchBuild buildId payload => (patchBuild ctx db buildId payload).map Prod.snd
  | .archiveBuild buildId => archiveBuild ctx db buildId
  | .restoreBuild buildId => restoreBuild ctx db buildId
  | .consumeBuild buildId payload => (consumeBuild ctx db buildId payload).map Prod.snd
  | .createBuildStage buildId payload => (createBuildStage ctx db buildId payload).map Prod.snd
  | .consumeBuildStage buildId stageId payload =>
    (consumeBuildStage ctx db buildId stageId payload).map Prod.snd
  | .buildKit buildId storageId => (buildKit ctx db buildId storageId).map Prod.snd
  | .buildStageKit buildId stageId storageId =>
    (buildStageKit ctx db buildId stageId storageId).map Prod.snd
  | .createStorage payload => (createStorage ctx db payload).map Prod.snd
  | .patchStorage storageId payload => (patchStorage ctx db storageId payload).map Prod.snd
  | .archiveStorage storageId => archiveStorage ctx db storageId
  | .restoreStorage storageId => restoreStorage ctx db storageId
  | .editCatalogue catalogue => .ok (db.withCatalogue catalogue)

/-- The database after a sequence of requests, one transaction each. -/
def runCalls (db : Db) (calls : List Call) : Db := Outcome.run exec db calls

/-! ### A small workspace

Two parts, a shelf and a drawer for one part only, and an empty ledger. -/

/-- An owner's request; `base` keeps the ids of one call apart from another's. -/
def sampleCtx (base : ℕ) : Ctx where
  workspaceId := 1
  userId := none
  role := .owner
  clock := fun _ => base
  draw := fun path => base + path.foldl (fun n i => 3 * n + i + 1) 0

def samplePart (id : Uuid) (name : String) : Part where
  id := id
  workspaceId := 1
  name := name
  partType := .localPart
  attritionPercentage := 0
  attritionMinQuantity := 0
  unitOfMeasure := "pcs"
  defaultStorageLocationId := none
  defaultStorageMandatory := false
  serialized := false

def sampleStorage (id : Uuid) (name : String) (singlePartOnly : Bool) : StorageLocation where
  id := id
  workspaceId := 1
  name := name
  description := none
  singlePartOnly := singlePartOnly
  existingPartsOnly := false
  isFull := false
  archivedAt := none
  updatedBy := none

def sampleDb : Db where
  workspaces := [⟨1, false⟩]
  parts := [samplePart 10 "bolt", samplePart 11 "nut"]
  partMetaMembers := []
  partSubstitutes := []
  projects := []
  projectEntries := []
  lots := []
  storageLocations := [sampleStorage 20 "shelf" false, sampleStorage 21 "drawer" true]
  stockEntries := []
  orders := []
  orderEntries := []
  builds := []
  buildStages := []
  buildStageLines := []

/-- `quantity` of a part put on a location, in a new lot or in none. -/
def sampleAdd (partId storageLocationId : Uuid) (quantity : ℕ) (inLot : Bool)
    (h : 0 < quantity) : LedgerOp :=
  .addStock
    { partId := partId
      quantity := quantity
      storageLocationId := some storageLocationId
      price := none
      lot := if inLot then some ⟨none, none, none, none⟩ else none
      comments := none
      bagSignature := none
      quantityPos := by omega }

/-- A count of a bucket. -/
def sampleAdjust (partId storageLocationId : Uuid) (lotId : Option Uuid) (actual : ℕ) : LedgerOp :=
  .adjustStock
    { partId := partId
      storageLocationId := some storageLocationId
      lotId := lotId
      actualQuantity := actual
      comments := none
      actualNonneg := by omega }

/-- A BOM line for `quantity` of a part. -/
def sampleEntry (id partId : Uuid) (quantity : ℕ) : ProjectEntry where
  id := id
  workspaceId := 1
  projectId := 30
  entryType := .part
  partId := some partId
  quantity := quantity
  attritionPct := 0
  dnp := false
  orderIndex := id
  quantityNonneg := Nat.cast_nonneg quantity
  attritionPctRange := by norm_num

/-- The workspace with a project whose BOM asks for `quantity` bolts. -/
def sampleProjectDb (quantity : ℕ) : Db :=
  { sampleDb with
    projects := [⟨30, 1, none⟩]
    projectEntries := [sampleEntry 40 10 quantity] }

def sampleBuildIn (quantity : ℕ) (h : 0 < quantity) : BuildCreateIn where
  name := "batch"
  projectId := 30
  quantity := quantity
  comments := none
  nameLength := by decide
  quantityPos := by omega

def sampleBuild (quantity : ℕ) (h : 0 < quantity) : Request :=
  .createBuild (sampleBuildIn quantity h)

/-- A stage of the sample build with `portion` percent of one BOM line. -/
def sampleStage (buildId : Uuid) (sequence : Option ℕ) (entryId : Uuid) (portion : ℕ)
    (h : 0 < portion ∧ portion ≤ 100) : Request :=
  .createBuildStage buildId
    { name := "stage"
      sequence := sequence
      comments := none
      lines :=
        [{ projectEntryId := entryId
           portionPct := portion
           portionRange := by exact_mod_cast h
           portionScale := by exact_mod_cast Rat.den_natCast (portion * 10000) }]
      nameLength := by decide
      linesNonempty := List.cons_ne_nil _ _ }

/-- A stage consumed from the shelf, with one line. -/
def sampleConsume (buildId stageId entryId partId : Uuid) (quantity : ℕ) (h : 0 < quantity) :
    Request :=
  .consumeBuildStage buildId stageId
    { lines :=
        [{ projectEntryId := entryId
           partId := partId
           quantity := quantity
           lotId := none
           storageLocationId := some 20
           quantityPos := by omega }]
      outputStorageLocationId := none
      outputLotName := none
      linesNonempty := List.cons_ne_nil _ _ }

end StockManager

/-! ## Archiving parts (api/routes/parts_core.py)

`archived_at` of the parts is a column beside the tables of the ledger: only
these routes write it, and nothing a build does reads it. -/

namespace StockManager

structure PartsDb where
  db : Db
  archivedAt : List (Uuid × Timestamp)

def PartsDb.isArchived (s : PartsDb) (partId : Uuid) : Prop := Dict.find partId s.archivedAt ≠ none

instance (s : PartsDb) (partId : Uuid) : Decidable (s.isArchived partId) :=
  inferInstanceAs (Decidable (_ ≠ _))

def totalForPart (db : Db) (workspaceId partId : Uuid) (status : StockStatus) : Decimal :=
  currentQuantity db workspaceId partId none none status false

def archivePart (ctx : Ctx) (s : PartsDb) (partId : Uuid) : Except Err PartsDb := do
  let p ← requireAdmin ctx Part.workspaceId (s.db.part partId) "part"
  let reserved := totalForPart s.db ctx.workspaceId p.id .reserved
  Outcome.check (reserved ≤ 0)
    (.http 409 "part.has_reserved_stock" "part has reserved stock; release reservations first"
      (.blocking [(some p.id, none, reserved)]))
  return { s with archivedAt := Dict.put p.id ctx.utcnow s.archivedAt }

/-- The index on the MPNs of active parts may refuse the row. -/
def restorePart (ctx : Ctx) (s : PartsDb) (partId : Uuid) (mpnFree : Bool) :
    Except Err PartsDb := do
  let p ← requireAdmin ctx Part.workspaceId (s.db.part partId) "part"
  Outcome.check (mpnFree = true) (.integrity "uq_parts_ws_mpn")
  return { s with archivedAt := Dict.erase p.id s.archivedAt }

structure BulkDeleteResult where
  archivedIds : List Uuid
  alreadyArchivedIds : List Uuid
  notFoundIds : List Uuid

/-- The loop of `bulk_delete_parts`. -/
def archiveRows (now : Timestamp) : List Part → List (Uuid × Timestamp) →
    (List Uuid × List Uuid) × List (Uuid × Timestamp)
  | [], archivedAt => (([], []), archivedAt)
  | p :: rest, archivedAt =>
    match Dict.find p.id archivedAt with
    | none =>
      let ((archived, already), column) := archiveRows now rest (Dict.put p.id now archivedAt)
      ((p.id :: archived, already), column)
    | some _ =>
      let ((archived, already), column) := archiveRows now rest archivedAt
      ((archived, p.id :: already), column)

def bulkDeleteParts (ctx : Ctx) (s : PartsDb) (partIds : List Uuid) :
    Except Err (BulkDeleteResult × PartsDb) := do
  Outcome.check (Role.admin.rank ≤ ctx.role.rank)
    (.http 403 "resource.insufficient_role" "requires role admin+" (.requiredRole .admin))
  let rows := s.db.parts.filter fun p => p.workspaceId = ctx.workspaceId ∧ p.id ∈ partIds
  let ((archived, already), column) := archiveRows ctx.utcnow rows s.archivedAt
  return (⟨archived, already, partIds.dedup.filter fun id => id ∉ rows.map (·.id)⟩,
    { s with archivedAt := column })

/-- The routes of builds that reserve or release. -/
inductive BuildOp
  | createBuild (payload : BuildCreateIn)
  | patchBuild (buildId : Uuid) (payload : BuildPatchIn)
  | archiveBuild (buildId : Uuid)
  | restoreBuild (buildId : Uuid)
  | consumeBuild (buildId : Uuid) (payload : ConsumeIn)
  | consumeBuildStage (buildId stageId : Uuid) (payload : ConsumeIn)

def BuildOp.request : BuildOp → Request
  | .createBuild payload => .createBuild payload
  | .patchBuild buildId payload => .patchBuild buildId payload
  | .archiveBuild buildId => .archiveBuild buildId
  | .restoreBuild buildId => .restoreBuild buildId
  | .consumeBuild buildId payload => .consumeBuild buildId payload
  | .consumeBuildStage buildId stageId payload => .consumeBuildStage buildId stageId payload

inductive PartsRequest
  | archivePart (partId : Uuid)
  | bulkDeleteParts (partIds : List Uuid)
  | restorePart (partId : Uuid) (mpnFree : Bool)
  | build (op : BuildOp)

structure PartsCall where
  ctx : Ctx
  request : PartsRequest

def PartsCall.exec (call : PartsCall) (s : PartsDb) : Except Err PartsDb :=
  match call.request with
  | .archivePart partId => archivePart call.ctx s partId
  | .bulkDeleteParts partIds => (bulkDeleteParts call.ctx s partIds).map Prod.snd
  | .restorePart partId mpnFree => restorePart call.ctx s partId mpnFree
  | .build op => (StockManager.exec ⟨call.ctx, op.request⟩ s.db).map fun db => { s with db := db }

/-- The state after a sequence of these requests, one transaction each. -/
def runParts (s : PartsDb) (calls : List PartsCall) : PartsDb := Outcome.run PartsCall.exec s calls

end StockManager
