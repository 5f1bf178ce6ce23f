import StockManager.Model.Kitting
import StockManager.Model.Orders

/-! # Routes (api/routes/{builds,build_stages,build_kits,storage,orders}.py)

A handler resolves its rows in the workspace, calls a service and maps the
service's exceptions to HTTP errors. -/

namespace StockManager

/-- A field of a PATCH body, as `model_dump(exclude_unset=True)` shows it. -/
inductive Patch (α : Type)
  | unset
  | null
  | set (value : α)
  deriving DecidableEq

/-- `setattr` on a NOT NULL column; the flush refuses a null. -/
def Patch.column {α : Type} (old : α) (name : String) : Patch α → Except Err α
  | unset => .ok old
  | null => .error (.integrity s!"null value in column {name}")
  | set value => .ok value

def Patch.nullable {α : Type} (old : Option α) : Patch α → Option α
  | unset => old
  | null => none
  | set value => some value

def Patch.get {α : Type} : Patch α → Option α
  | set value => some value
  | _ => none

/-! ### Error mapping -/

def constraintError (code : String) : Err → Err
  | .stockConflict message which id => .http 409 code message (.ofConstraint which id)
  | e => e

def consumeError : Err → Err
  | .build message => .http 400 "build.consume_error" message .nothing
  | e => constraintError "stock.constraint_violation" e

def stageError : Err → Err
  | .build message => .http 400 "build_stage.error" message .nothing
  | e => e

def kitError : Err → Err
  | .build message => .http 400 "build.kit_error" message .nothing
  | .stock message => .http 400 "build.kit_error" message .nothing
  | e => constraintError "stock.constraint_violation" e

def receiveError : Err → Err
  | .order message => .http 400 "order.receive_error" message .nothing
  | e => constraintError "stock.constraint_violation" e

/-! ### Look-ups -/

/-- `require_resource_access(…, role="admin")`: existence before the role. -/
def requireAdmin {α : Type} (ctx : Ctx) (workspaceOf : α → Uuid) (row : Option α)
    (label : String) : Except Err α := do
  let row ← Outcome.orRaise (belongs workspaceOf ctx.workspaceId row)
    (.http 404 "resource.not_found" s!"{label} not found" (.resource label))
  Outcome.check (Role.admin.rank ≤ ctx.role.rank)
    (.http 403 "resource.insufficient_role" "requires role admin+" (.requiredRole .admin))
  return row

def getBuild (ctx : Ctx) (db : Db) (buildId : Uuid) : Except Err Build :=
  Outcome.orRaise (belongs Build.workspaceId ctx.workspaceId (db.build buildId))
    (.http 404 "build.not_found" "build not found" .nothing)

def getProject (ctx : Ctx) (db : Db) (projectId : Uuid) : Except Err Project :=
  Outcome.orRaise (belongs Project.workspaceId ctx.workspaceId (db.project projectId))
    (.http 404 "project.not_found" "project not found" .nothing)

def getStage (ctx : Ctx) (db : Db) (build : Build) (stageId : Uuid) : Except Err BuildStage := do
  let stage ← Outcome.orRaise
    (belongs BuildStage.workspaceId ctx.workspaceId (db.buildStage stageId))
    (.http 404 "build_stage.not_found" "build stage not found" .nothing)
  Outcome.check (stage.buildId = build.id ∧ stage.archivedAt = none)
    (.http 404 "build_stage.not_found" "build stage not found" .nothing)
  return stage

def getStorage (ctx : Ctx) (db : Db) (storageId : Uuid) : Except Err StorageLocation :=
  Outcome.orRaise
    (belongs StorageLocation.workspaceId ctx.workspaceId (db.storageLocation storageId))
    (.http 404 "storage.not_found" "storage not found" .nothing)

def getOrder (ctx : Ctx) (db : Db) (orderId : Uuid) : Except Err Order :=
  Outcome.orRaise (belongs Order.workspaceId ctx.workspaceId (db.order orderId))
    (.http 404 "order.not_found" "order not found" .nothing)

/-! ### Builds -/

structure BuildCreateIn where
  name : String
  projectId : Uuid
  quantity : ℤ
  comments : Option String
  nameLength : 1 ≤ name.length ∧ name.length ≤ 200
  quantityPos : 0 < quantity

structure BuildPatchIn where
  name : Patch String
  quantity : Patch { q : ℤ // 0 < q }
  status : Patch BuildStatus
  comments : Patch String

def newBuild (ctx : Ctx) (payload : BuildCreateIn) (project : Project) : Build where
  id := ctx.uuid4
  workspaceId := ctx.workspaceId
  name := payload.name
  projectId := project.id
  quantity := payload.quantity
  status := .planned
  startedAt := none
  completedAt := none
  outputLotId := none
  comments := payload.comments
  archivedAt := none
  createdBy := ctx.userId
  updatedBy := ctx.userId
  quantityPos := payload.quantityPos

def createBuild (ctx : Ctx) (db : Db) (payload : BuildCreateIn) : Except Err (Build × Db) := do
  let project ← getProject ctx db payload.projectId
  let build := newBuild ctx payload project
  let db ← db.insertBuild build
  let (_, db) ← applyReservations (ctx.child 0) db build project
  return (build, db)

/-- The row after the `setattr` loop of `patch_build`. -/
def patchedBuild (ctx : Ctx) (b : Build) (payload : BuildPatchIn) : Except Err Build := do
  let name ← payload.name.column b.name "name"
  let quantity ← payload.quantity.column ⟨b.quantity, b.quantityPos⟩ "quantity"
  let status ← payload.status.column b.status "status"
  return { b with
    name := name
    quantity := quantity.1
    status := status
    comments := payload.comments.nullable b.comments
    updatedBy := ctx.userId
    quantityPos := quantity.2 }

def BuildStatus.isOpen (s : BuildStatus) : Prop := s = .planned ∨ s = .inProgress

instance (s : BuildStatus) : Decidable s.isOpen := inferInstanceAs (Decidable (_ ∨ _))

def patchBuild (ctx : Ctx) (db : Db) (buildId : Uuid) (payload : BuildPatchIn) :
    Except Err (Build × Db) := do
  let old ← getBuild ctx db buildId
  Outcome.check (old.status = .complete → payload.status = .set .cancelled)
    (.http 400 "build.read_only" "completed builds are read-only" .nothing)
  let quantityChanged :=
    payload.quantity ≠ .unset ∧ payload.quantity ≠ .set ⟨old.quantity, old.quantityPos⟩
  Outcome.check (quantityChanged → hasConsumedStage db ctx.workspaceId old = false)
    (.http 400 "build.read_only" "cannot change quantity after a stage has been consumed" .nothing)
  let build ← patchedBuild ctx old payload
  let db := db.updateBuild build.id fun _ => build
  if payload.status = .set .cancelled ∧ old.status ≠ .cancelled then
    let (_, db) ← releaseReservations (ctx.child 0) db build
    return (build, db)
  else if quantityChanged ∧ old.status.isOpen ∧ build.status.isOpen then
    let project ← getProject ctx db build.projectId
    let (_, db) ← releaseReservations (ctx.child 0) db build
    let (_, db) ← applyReservations (ctx.child 1) db build project
    return (build, db)
  else
    return (build, db)

def archiveBuild (ctx : Ctx) (db : Db) (buildId : Uuid) : Except Err Db := do
  let build ← requireAdmin ctx Build.workspaceId (db.build buildId) "build"
  let (_, db) ← releaseReservations (ctx.child 0) db build
  return db.updateBuild build.id fun b => { b with archivedAt := some ctx.utcnow }

def restoreBuild (ctx : Ctx) (db : Db) (buildId : Uuid) : Except Err Db := do
  let build ← requireAdmin ctx Build.workspaceId (db.build buildId) "build"
  return db.updateBuild build.id fun b => { b with archivedAt := none }

def consumeBuild (ctx : Ctx) (db : Db) (buildId : Uuid) (payload : ConsumeIn) :
    Except Err (ConsumeResult × Db) := do
  let build ← getBuild ctx db buildId
  let project ← getProject ctx db build.projectId
  Outcome.check (hasStages db ctx.workspaceId build = false)
    (.http 400 "build.has_stages"
      "build has stages; consume each stage via /stages/\x7bstage_id\x7d/consume" .nothing)
  (consume ctx db build project payload).mapError consumeError

def createBuildStage (ctx : Ctx) (db : Db) (buildId : Uuid) (payload : BuildStageCreateIn) :
    Except Err (BuildStage × Db) := do
  let build ← getBuild ctx db buildId
  let project ← getProject ctx db build.projectId
  (createStage ctx db build project payload).mapError stageError

def consumeBuildStage (ctx : Ctx) (db : Db) (buildId stageId : Uuid) (payload : ConsumeIn) :
    Except Err (StageConsumeResult × Db) := do
  let build ← getBuild ctx db buildId
  let project ← getProject ctx db build.projectId
  let stage ← getStage ctx db build stageId
  (consumeStage ctx db build project stage payload).mapError consumeError

/-- The executing branch of `_kit_response`. -/
def kitResponse (ctx : Ctx) (db : Db) (build : Build) (stage : Option BuildStage)
    (storageLocationId : Uuid) : Except Err (List KitLine × Db) := do
  let project ← getProject ctx db build.projectId
  let staging ← (resolveStaging db ctx.workspaceId storageLocationId).mapError kitError
  (executeKit ctx db build project stage staging).mapError kitError

def buildKit (ctx : Ctx) (db : Db) (buildId storageLocationId : Uuid) :
    Except Err (List KitLine × Db) := do
  let build ← getBuild ctx db buildId
  Outcome.check (hasStages db ctx.workspaceId build = false)
    (.http 400 "build.has_stages"
      "build has stages; kit each stage via /stages/\x7bstage_id\x7d/kit" .nothing)
  kitResponse ctx db build none storageLocationId

def buildStageKit (ctx : Ctx) (db : Db) (buildId stageId storageLocationId : Uuid) :
    Except Err (List KitLine × Db) := do
  let build ← getBuild ctx db buildId
  let stage ← getStage ctx db build stageId
  kitResponse ctx db build (some stage) storageLocationId

/-! ### Orders -/

def receiveOrder (ctx : Ctx) (db : Db) (orderId : Uuid) (payload : ReceiveIn) :
    Except Err (ReceiveResult × Db) := do
  let order ← getOrder ctx db orderId
  (receive ctx db order payload).mapError receiveError

/-! ### Storage -/

structure StorageIn where
  name : String
  description : Option String
  singlePartOnly : Bool
  existingPartsOnly : Bool
  isFull : Bool
  nameLength : 1 ≤ name.length ∧ name.length ≤ 200

structure StoragePatch where
  name : Patch String
  description : Patch String
  singlePartOnly : Patch Bool
  existingPartsOnly : Patch Bool
  isFull : Patch Bool

/-- `uq_storage_ws_name`: names are unique among the active locations of a workspace. -/
def checkStorageName (db : Db) (row : StorageLocation) : Except Err Unit :=
  Outcome.check (row.archivedAt = none → ∀ r ∈ db.storageLocations, r.id ≠ row.id →
      r.archivedAt = none → r.workspaceId = row.workspaceId → r.name ≠ row.name)
    (.integrity "uq_storage_ws_name")

def createStorage (ctx : Ctx) (db : Db) (payload : StorageIn) :
    Except Err (StorageLocation × Db) := do
  let row : StorageLocation :=
    { id := ctx.uuid4
      workspaceId := ctx.workspaceId
      name := payload.name
      description := payload.description
      singlePartOnly := payload.singlePartOnly
      existingPartsOnly := payload.existingPartsOnly
      isFull := payload.isFull
      archivedAt := none
      updatedBy := ctx.userId }
  Outcome.check (∀ r ∈ db.storageLocations, r.id ≠ row.id) (.integrity "storage_locations_pkey")
  checkStorageName db row
  return (row, { db with storageLocations := db.storageLocations ++ [row] })

/-- The row after the `setattr` loop of `patch_storage`. -/
def patchedStorage (ctx : Ctx) (s : StorageLocation) (payload : StoragePatch) :
    Except Err StorageLocation := do
  let name ← payload.name.column s.name "name"
  let singlePartOnly ← payload.singlePartOnly.column s.singlePartOnly "single_part_only"
  let existingPartsOnly ←
    payload.existingPartsOnly.column s.existingPartsOnly "existing_parts_only"
  let isFull ← payload.isFull.column s.isFull "is_full"
  return { s with
    name := name
    description := payload.description.nullable s.description
    singlePartOnly := singlePartOnly
    existingPartsOnly := existingPartsOnly
    isFull := isFull
    updatedBy := ctx.userId }

def patchStorage (ctx : Ctx) (db : Db) (storageId : Uuid) (payload : StoragePatch) :
    Except Err (StorageLocation × Db) := do
  let s ← getStorage ctx db storageId
  (validateStorageConstraintFlagUpdate db ctx.workspaceId s payload.singlePartOnly.get
    payload.existingPartsOnly.get).mapError (constraintError "storage.constraint_violation")
  let row ← patchedStorage ctx s payload
  checkStorageName db row
  return (row, db.updateStorageLocation row.id fun _ => row)

/-- Archiving refuses a location that still holds stock. -/
def archiveStorage (ctx : Ctx) (db : Db) (storageId : Uuid) : Except Err Db := do
  let s ← requireAdmin ctx StorageLocation.workspaceId (db.storageLocation storageId) "storage"
  let onHand := stockForStorage db ctx.workspaceId s.id .onHand
  let reserved := stockForStorage db ctx.workspaceId s.id .reserved
  let blocking := (onHand ++ reserved).filter fun r => 0 < r.quantity
  Outcome.check (blocking = [])
    (.http 409 "storage.has_stock" "storage still holds on-hand stock; move or remove it first"
      (.blocking (blocking.map fun r => (r.partId, r.lotId, r.quantity))))
  return db.updateStorageLocation s.id fun r => { r with archivedAt := some ctx.utcnow }

def restoreStorage (ctx : Ctx) (db : Db) (storageId : Uuid) : Except Err Db := do
  let s ← requireAdmin ctx StorageLocation.workspaceId (db.storageLocation storageId) "storage"
  checkStorageName db { s with archivedAt := none }
  return db.updateStorageLocation s.id fun r => { r with archivedAt := none }

end StockManager
