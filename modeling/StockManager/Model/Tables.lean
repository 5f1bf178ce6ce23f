import StockManager.Library.Outcome
import StockManager.Model.Values

/-! # Tables and request bodies

One structure for each table and each request schema, with the columns the
stock, order, storage and build services read or write. A bound that a schema
puts on a field is a field of the structure. -/

namespace StockManager

/-! ### Catalogue -/

structure Workspace where
  id : Uuid
  serialTrackingEnabled : Bool
  deriving DecidableEq

structure Part where
  id : Uuid
  workspaceId : Uuid
  name : String
  partType : PartType
  attritionPercentage : Decimal
  attritionMinQuantity : Decimal
  unitOfMeasure : String
  defaultStorageLocationId : Option Uuid
  defaultStorageMandatory : Bool
  serialized : Bool
  deriving DecidableEq

structure PartMetaMember where
  workspaceId : Uuid
  metaPartId : Uuid
  partId : Uuid
  deriving DecidableEq

structure PartSubstitute where
  workspaceId : Uuid
  partId : Uuid
  substitutePartId : Uuid
  direction : SubstituteDirection
  deriving DecidableEq

structure Project where
  id : Uuid
  workspaceId : Uuid
  associatedSubassemblyPartId : Option Uuid
  deriving DecidableEq

/-- A BOM line. The range of `attrition_pct` and the sign of `quantity` are
check constraints of the table. -/
structure ProjectEntry where
  id : Uuid
  workspaceId : Uuid
  projectId : Uuid
  entryType : EntryType
  partId : Option Uuid
  quantity : Decimal
  attritionPct : Decimal
  dnp : Bool
  orderIndex : ℤ
  quantityNonneg : 0 ≤ quantity
  attritionPctRange : 0 ≤ attritionPct ∧ attritionPct < 100
  deriving DecidableEq

/-! ### Stock -/

structure Lot where
  id : Uuid
  workspaceId : Uuid
  partId : Option Uuid
  name : Option String
  serialNumber : Option String
  parentLotId : Option Uuid
  description : Option String
  comments : Option String
  expirationDate : Option Date
  sourceType : LotSource
  sourceOrderId : Option Uuid
  sourceBuildId : Option Uuid
  purchaseQuantity : Option Decimal
  purchaseUnitCost : Option Decimal
  purchaseCurrency : Option String
  createdBy : Option Uuid
  updatedBy : Option Uuid
  deriving DecidableEq

structure StorageLocation where
  id : Uuid
  workspaceId : Uuid
  name : String
  description : Option String
  singlePartOnly : Bool
  existingPartsOnly : Bool
  isFull : Bool
  archivedAt : Option Timestamp
  updatedBy : Option Uuid
  deriving DecidableEq

structure StockEntry where
  id : Uuid
  workspaceId : Uuid
  partId : Option Uuid
  lotId : Option Uuid
  storageLocationId : Option Uuid
  quantityDelta : Decimal
  unit : String
  status : StockStatus
  unitPrice : Option Decimal
  currency : Option String
  operationType : OperationType
  relatedEntryId : Option Uuid
  orderId : Option Uuid
  orderEntryId : Option Uuid
  projectId : Option Uuid
  buildId : Option Uuid
  buildStageId : Option Uuid
  comments : Option String
  bagSignature : Option String
  occurredAt : Timestamp
  createdBy : Option Uuid
  deriving DecidableEq

/-! ### Orders -/

structure Order where
  id : Uuid
  workspaceId : Uuid
  name : String
  status : OrderStatus
  currency : Option String
  receivedOn : Option Date
  updatedBy : Option Uuid
  deriving DecidableEq

structure OrderEntry where
  id : Uuid
  workspaceId : Uuid
  orderId : Uuid
  partId : Option Uuid
  quantityOrdered : Decimal
  quantityReceived : Decimal
  unitPrice : Option Decimal
  currency : Option String
  orderIndex : ℤ
  updatedBy : Option Uuid
  deriving DecidableEq

/-! ### Builds -/

/-- Every writer of `quantity` is a schema with `gt=0`. -/
structure Build where
  id : Uuid
  workspaceId : Uuid
  name : String
  projectId : Uuid
  quantity : ℤ
  status : BuildStatus
  startedAt : Option Timestamp
  completedAt : Option Timestamp
  outputLotId : Option Uuid
  comments : Option String
  archivedAt : Option Timestamp
  createdBy : Option Uuid
  updatedBy : Option Uuid
  quantityPos : 0 < quantity
  deriving DecidableEq

structure BuildStage where
  id : Uuid
  workspaceId : Uuid
  buildId : Uuid
  name : String
  sequence : ℕ
  status : StageStatus
  startedAt : Option Timestamp
  completedAt : Option Timestamp
  comments : Option String
  archivedAt : Option Timestamp
  createdAt : Timestamp
  createdBy : Option Uuid
  updatedBy : Option Uuid
  deriving DecidableEq

/-- The slice of a BOM line a stage takes; the range is a check constraint. -/
structure BuildStageLine where
  id : Uuid
  workspaceId : Uuid
  buildStageId : Uuid
  projectEntryId : Uuid
  portionPct : Decimal
  archivedAt : Option Timestamp
  createdBy : Option Uuid
  updatedBy : Option Uuid
  portionRange : 0 < portionPct ∧ portionPct ≤ 100
  deriving DecidableEq

/-! ### The database -/

structure Db where
  workspaces : List Workspace
  parts : List Part
  partMetaMembers : List PartMetaMember
  partSubstitutes : List PartSubstitute
  projects : List Project
  projectEntries : List ProjectEntry
  lots : List Lot
  storageLocations : List StorageLocation
  stockEntries : List StockEntry
  orders : List Order
  orderEntries : List OrderEntry
  builds : List Build
  buildStages : List BuildStage
  buildStageLines : List BuildStageLine
  deriving DecidableEq

namespace Db

/-! `db.get(Model, id)` -/

def workspace (db : Db) (id : Uuid) : Option Workspace := db.workspaces.find? (·.id = id)
def part (db : Db) (id : Uuid) : Option Part := db.parts.find? (·.id = id)
def project (db : Db) (id : Uuid) : Option Project := db.projects.find? (·.id = id)
def lot (db : Db) (id : Uuid) : Option Lot := db.lots.find? (·.id = id)
def storageLocation (db : Db) (id : Uuid) : Option StorageLocation :=
  db.storageLocations.find? (·.id = id)
def order (db : Db) (id : Uuid) : Option Order := db.orders.find? (·.id = id)
def build (db : Db) (id : Uuid) : Option Build := db.builds.find? (·.id = id)
def buildStage (db : Db) (id : Uuid) : Option BuildStage := db.buildStages.find? (·.id = id)

/-! `db.add(row)` and `db.flush()`: a primary key or a unique index that is
already taken raises. -/

def insertLot (db : Db) (row : Lot) : Except Err Db := do
  Outcome.check (∀ r ∈ db.lots, r.id ≠ row.id) (.integrity "lots_pkey")
  return { db with lots := db.lots ++ [row] }

def insertStockEntry (db : Db) (row : StockEntry) : Except Err Db := do
  Outcome.check (∀ r ∈ db.stockEntries, r.id ≠ row.id) (.integrity "stock_entries_pkey")
  return { db with stockEntries := db.stockEntries ++ [row] }

def insertBuild (db : Db) (row : Build) : Except Err Db := do
  Outcome.check (∀ r ∈ db.builds, r.id ≠ row.id) (.integrity "builds_pkey")
  return { db with builds := db.builds ++ [row] }

def insertBuildStage (db : Db) (row : BuildStage) : Except Err Db := do
  Outcome.check (∀ r ∈ db.buildStages, r.id ≠ row.id) (.integrity "build_stages_pkey")
  Outcome.check
    (∀ r ∈ db.buildStages, r.archivedAt = none → r.buildId = row.buildId → r.sequence ≠ row.sequence)
    (.integrity "uq_build_stages_build_sequence")
  return { db with buildStages := db.buildStages ++ [row] }

def insertBuildStageLine (db : Db) (row : BuildStageLine) : Except Err Db := do
  Outcome.check (∀ r ∈ db.buildStageLines, r.id ≠ row.id) (.integrity "build_stage_lines_pkey")
  Outcome.check
    (∀ r ∈ db.buildStageLines,
      r.buildStageId = row.buildStageId → r.projectEntryId ≠ row.projectEntryId)
    (.integrity "uq_build_stage_lines_stage_entry")
  return { db with buildStageLines := db.buildStageLines ++ [row] }

/-! Attribute writes on a loaded row -/

def updateStockEntry (db : Db) (id : Uuid) (f : StockEntry → StockEntry) : Db :=
  { db with stockEntries := db.stockEntries.map fun r => if r.id = id then f r else r }

def updateStorageLocation (db : Db) (id : Uuid) (f : StorageLocation → StorageLocation) : Db :=
  { db with storageLocations := db.storageLocations.map fun r => if r.id = id then f r else r }

def updateOrder (db : Db) (id : Uuid) (f : Order → Order) : Db :=
  { db with orders := db.orders.map fun r => if r.id = id then f r else r }

def updateOrderEntry (db : Db) (id : Uuid) (f : OrderEntry → OrderEntry) : Db :=
  { db with orderEntries := db.orderEntries.map fun r => if r.id = id then f r else r }

def updateBuild (db : Db) (id : Uuid) (f : Build → Build) : Db :=
  { db with builds := db.builds.map fun r => if r.id = id then f r else r }

def updateBuildStage (db : Db) (id : Uuid) (f : BuildStage → BuildStage) : Db :=
  { db with buildStages := db.buildStages.map fun r => if r.id = id then f r else r }

end Db

end StockManager
