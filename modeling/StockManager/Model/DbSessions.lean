import Mathlib.Data.Prod.Lex
import StockManager.Library.LockTable
import StockManager.Library.Transactions
import StockManager.Model.Routes

/-! # Advisory locks (domain/stock/service.py and its callers)

The locks one call takes, in the order it takes them when every check passes; a
call that fails on the way has taken the first few of them. What a call reads
before it locks is an argument of its own: other transactions may commit between
two reads. -/

namespace StockManager

/-- The text a lock is keyed by, before `hashtextextended`. The part id of a
reserve row is NULL once its part is deleted. -/
inductive LockKey
  | part (workspaceId : Uuid) (partId : Option Uuid)
  | storage (workspaceId storageLocationId : Uuid)
  deriving DecidableEq

/-- The order of `str(id)`: "None" comes after the ids that start with a digit and
before those that start with a letter. -/
def strRank : Option Uuid → ℕ
  | some id => 2 * id + 1
  | none => 2 * (10 * 16 ^ 31)

def lockPartsForStockWrite (workspaceId : Uuid) (partIds : List (Option Uuid)) : List LockKey :=
  (partIds.dedup.insertionSort fun a b => strRank a ≤ strRank b).map (.part workspaceId)

/-- The location `enforce_storage_constraints` locks, if a destination is named. -/
def lockForStorageConstraint (workspaceId : Uuid) (storageLocationId : Option Uuid) :
    List LockKey :=
  (storageLocationId.map (LockKey.storage workspaceId)).toList

/-- The parts of all reserve rows of the build, released or not. -/
def reservedParts (db : Db) (workspaceId : Uuid) (build : Build) : List (Option Uuid) :=
  (outstandingReservations db workspaceId build).1

/-- The parts of the bundle `lock_for_consume` takes. -/
def consumeBundle (db : Db) (workspaceId : Uuid) (project : Project) (payload : ConsumeIn) :
    List Uuid :=
  lockForConsume db workspaceId project (payload.lines.map (·.partId))

/-- The output destination, which only a project with a sub-assembly part has. -/
def outputStorage (project : Project) (payload : ConsumeIn) : Option Uuid :=
  project.associatedSubassemblyPartId.bind fun _ => payload.outputStorageLocationId

inductive LockOp
  | addStock (payload : AddStockIn)
  | moveStock (payload : MoveStockIn)
  | executeKit (atLock atPlan : Db) (build : Build) (project : Project)
      (stage : Option BuildStage) (staging : StorageLocation)
  | receive (atLock : Db) (order : Order) (payload : ReceiveIn)
  | consume (atLock atRelease : Db) (build : Build) (project : Project) (payload : ConsumeIn)
  | consumeStage (atLock atRelease atClose : Db) (build : Build) (project : Project)
      (stage : BuildStage) (payload : ConsumeIn)
  | patchStorage (storage : StorageLocation) (payload : StoragePatch)

def addStockLocks (workspaceId : Uuid) (payload : AddStockIn) : List LockKey :=
  .part workspaceId (some payload.partId) ::
    lockForStorageConstraint workspaceId payload.storageLocationId

/-- `_prepare_move` -/
def moveLocks (workspaceId partId destinationStorageLocationId : Uuid) : List LockKey :=
  [.part workspaceId (some partId), .storage workspaceId destinationStorageLocationId]

/-- Every part up front, then what `move_quantity` takes for each source. -/
def executeKitLocks (atLock atPlan : Db) (workspaceId : Uuid) (build : Build) (project : Project)
    (stage : Option BuildStage) (staging : StorageLocation) : List LockKey :=
  let perPart := (requiredByPart atLock workspaceId build project stage).1
  let lines := planKit atPlan workspaceId build project stage staging
  lockPartsForStockWrite workspaceId ((Dict.keys perPart).map some) ++
    lines.flatMap fun line => line.sources.flatMap fun _ =>
      moveLocks workspaceId line.partId staging.id

/-- The parts of the order's entries, then a location for each line that names one. -/
def receiveLocks (atLock : Db) (workspaceId : Uuid) (order : Order) (payload : ReceiveIn) :
    List LockKey :=
  let partIds := (orderEntriesOf atLock workspaceId order.id).filterMap (·.partId)
  lockPartsForStockWrite workspaceId (partIds.map some) ++
    payload.lines.flatMap fun line => lockForStorageConstraint workspaceId line.storageLocationId

def consumeLocks (atLock atRelease : Db) (workspaceId : Uuid) (build : Build) (project : Project)
    (payload : ConsumeIn) : List LockKey :=
  lockPartsForStockWrite workspaceId ((consumeBundle atLock workspaceId project payload).map some) ++
    (lockPartsForStockWrite workspaceId (reservedParts atRelease workspaceId build) ++
      lockForStorageConstraint workspaceId (outputStorage project payload))

/-- The last stage also produces the output and releases what is left. -/
def closingLocks (atClose : Db) (workspaceId : Uuid) (build : Build) (project : Project)
    (payload : ConsumeIn) : List LockKey :=
  lockForStorageConstraint workspaceId (outputStorage project payload) ++
    lockPartsForStockWrite workspaceId (reservedParts atClose workspaceId build)

def consumeStageLocks (atLock atRelease atClose : Db) (workspaceId : Uuid) (build : Build)
    (project : Project) (stage : BuildStage) (payload : ConsumeIn) : List LockKey :=
  let outstanding := (listStages atRelease workspaceId build).filter
    fun s => s.id ≠ stage.id ∧ s.status ≠ .complete
  lockPartsForStockWrite workspaceId ((consumeBundle atLock workspaceId project payload).map some) ++
    (lockPartsForStockWrite workspaceId (reservedParts atRelease workspaceId build) ++
      if outstanding = [] then closingLocks atClose workspaceId build project payload else [])

/-- `validate_storage_constraint_flag_update` locks only when a flag is switched on. -/
def patchStorageLocks (workspaceId : Uuid) (storage : StorageLocation) (payload : StoragePatch) :
    List LockKey :=
  if payload.singlePartOnly.get = some true ∧ storage.singlePartOnly = false ∨
      payload.existingPartsOnly.get = some true ∧ storage.existingPartsOnly = false then
    [.storage workspaceId storage.id]
  else []

def LockOp.locks (workspaceId : Uuid) : LockOp → List LockKey
  | addStock payload => addStockLocks workspaceId payload
  | moveStock payload =>
    moveLocks workspaceId payload.partId payload.destinationStorageLocationId
  | executeKit atLock atPlan build project stage staging =>
    executeKitLocks atLock atPlan workspaceId build project stage staging
  | receive atLock order payload => receiveLocks atLock workspaceId order payload
  | consume atLock atRelease build project payload =>
    consumeLocks atLock atRelease workspaceId build project payload
  | consumeStage atLock atRelease atClose build project stage payload =>
    consumeStageLocks atLock atRelease atClose workspaceId build project stage payload
  | patchStorage storage payload => patchStorageLocks workspaceId storage payload

structure LockCall where
  workspaceId : Uuid
  op : LockOp

def LockCall.locks (call : LockCall) : List LockKey := call.op.locks call.workspaceId

end StockManager

/-! ## Database sessions (infra/db.py)

Every request runs in one READ COMMITTED transaction: `get_db` commits when the
route returns and rolls back when it raises. A row that is inserted, updated,
deleted or selected `FOR UPDATE` is locked until the end, an inserted one by its
unique keys. -/

namespace StockManager

open Transactions

inductive Table
  | lots | stockEntries | orders | orderEntries | builds | buildStages | buildStageLines
  deriving DecidableEq

inductive DbLock
  | advisory (key : LockKey)
  | row (table : Table) (id : Uuid)
  | stageSequence (buildId : Uuid) (sequence : ℕ)
  deriving DecidableEq

abbrev DbTx (α : Type) : Type := Tx Db DbLock Err α

/-- A whole request: it ends with what its commit relies on. -/
abbrev RouteTx : Type := DbTx (Db → Bool)

namespace DbTx

def lockParts (workspaceId : Uuid) (partIds : List (Option Uuid)) : DbTx Unit :=
  Tx.takeAll ((lockPartsForStockWrite workspaceId partIds).map .advisory)

/-- `db.add(row)` and `db.flush()` -/
def insert (lock : DbLock) (ins : Db → Except Err Db) (append : Db → Db) : DbTx Unit := do
  Tx.take lock
  let _ ← Tx.ask ins
  Tx.put append

def insertLot (row : Lot) : DbTx Unit :=
  insert (.row .lots row.id) (·.insertLot row) fun db => { db with lots := db.lots ++ [row] }

def insertStockEntry (row : StockEntry) : DbTx Unit :=
  insert (.row .stockEntries row.id) (·.insertStockEntry row) fun db =>
    { db with stockEntries := db.stockEntries ++ [row] }

end DbTx

/-- What an `UPDATE` leaves in a column: the session only writes an attribute whose
value is not the loaded one. -/
def written {α : Type} [DecidableEq α] (loaded new stored : α) : α :=
  if new = loaded then stored else new

end StockManager
