import StockManager.Model.Builds

/-! # Multi-stage builds (domain/builds/stages.py)

A stage takes a percentage of some BOM lines. The whole-build requirement of a
line is split over the stages that take from it by a cumulative ceiling, in
stage order. -/

namespace StockManager

structure BuildStageLineIn where
  projectEntryId : Uuid
  portionPct : Decimal
  portionRange : 0 < portionPct ∧ portionPct ≤ 100
  portionScale : (portionPct * 10000).den = 1

structure BuildStageCreateIn where
  name : String
  sequence : Option ℕ
  comments : Option String
  lines : List BuildStageLineIn
  nameLength : 1 ≤ name.length ∧ name.length ≤ 200
  linesNonempty : lines ≠ []

/-! ### Allocation -/

/-- The loop of `_allocate`, from the percentage and the quantity already given out. -/
def allocateFrom (total cumulative : Decimal) (previous : ℤ) :
    List (Uuid × Decimal) → List (Uuid × ℤ)
  | [] => []
  | (stageId, pct) :: rest =>
    let upto := min ⌈total * (cumulative + pct) / 100⌉ ⌈total⌉
    (stageId, max 0 (upto - previous)) :: allocateFrom total (cumulative + pct) upto rest

def allocate (total : Decimal) (portions : List (Uuid × Decimal)) : List (Uuid × ℤ) :=
  (allocateFrom total 0 0 portions).foldl (fun d item => Dict.put item.1 item.2 d) []

/-- Active stages of a build, in consumption order. -/
def listStages (db : Db) (workspaceId : Uuid) (build : Build) : List BuildStage :=
  (db.buildStages.filter fun s => s.workspaceId = workspaceId ∧ s.buildId = build.id ∧
    s.archivedAt = none).insertionSort fun a b => a.sequence < b.sequence ∨
      a.sequence = b.sequence ∧ (a.createdAt < b.createdAt ∨
        a.createdAt = b.createdAt ∧ a.id ≤ b.id)

def stageLines (db : Db) (workspaceId : Uuid) (stageIds : List Uuid) : List BuildStageLine :=
  db.buildStageLines.filter fun l =>
    l.workspaceId = workspaceId ∧ l.buildStageId ∈ stageIds ∧ l.archivedAt = none

/-- The portions of one BOM line over the stages, in stage order. -/
def portionsOf (stageIds : List Uuid) (lines : List BuildStageLine) (entryId : Uuid) :
    List (Uuid × Decimal) :=
  ((lines.filter fun l => l.projectEntryId = entryId).map fun l =>
    (l.buildStageId, l.portionPct)).insertionSort
      fun a b => stageIds.idxOf a.1 ≤ stageIds.idxOf b.1

/-- The slices `(stage, quantity)` of one BOM line; none for a line that is not consumable. -/
def entrySlices (db : Db) (workspaceId : Uuid) (build : Build) (project : Project)
    (stageIds : List Uuid) (lines : List BuildStageLine) (entryId : Uuid) : List (Uuid × ℤ) :=
  match Dict.find entryId (projectEntriesById db workspaceId project) with
  | none => []
  | some entry =>
    if entry.consumable then
      match entry.partId.bind db.part with
      | none => []
      | some part =>
        allocate (required entry (some part) build.quantity) (portionsOf stageIds lines entryId)
    else []

/-- `stage_allocations`: `{stage: {entry: quantity}}` for the whole build. -/
def stageAllocations (db : Db) (workspaceId : Uuid) (build : Build) (project : Project) :
    List (Uuid × List (Uuid × ℤ)) :=
  let stageIds := (listStages db workspaceId build).map (·.id)
  let lines := stageLines db workspaceId stageIds
  let slices : List (Uuid × Uuid × ℤ) :=
    (lines.map (·.projectEntryId)).dedup.flatMap fun entryId =>
      (entrySlices db workspaceId build project stageIds lines entryId).map
        fun item => (item.1, entryId, item.2)
  Dict.collect (·.1) [] (fun slice d => Dict.put slice.2.1 slice.2.2 d)
    (stageIds.map fun id => (id, [])) slices

/-- `allocations.get(stage.id, {})` -/
def stageAllocation (db : Db) (workspaceId : Uuid) (build : Build) (project : Project)
    (stageId : Uuid) : List (Uuid × ℤ) :=
  (Dict.find stageId (stageAllocations db workspaceId build project)).getD []

/-! ### Creating a stage -/

def committedPortions (db : Db) (workspaceId : Uuid) (stageIds : List Uuid) :
    List (Uuid × Decimal) :=
  Dict.totals (·.projectEntryId) (·.portionPct) (stageLines db workspaceId stageIds)

/-- The entry of every payload line must be consumable and named once. -/
def checkStageLines (entriesById : List (Uuid × ProjectEntry)) :
    List Uuid → List BuildStageLineIn → Except Err Unit
  | _, [] => .ok ()
  | seen, line :: rest => do
    let entry ← Outcome.orRaise (Dict.find line.projectEntryId entriesById)
      (.build s!"project entry {uuidStr line.projectEntryId} not in this project")
    Outcome.check ((entry.entryType = .part ∨ entry.entryType = .metaPart) ∧ entry.partId.isSome)
      (.build s!"project entry {uuidStr entry.id} has no part to consume")
    Outcome.check (entry.dnp = false) (.build s!"project entry {uuidStr entry.id} is DNP")
    Outcome.check (entry.id ∉ seen)
      (.build s!"project entry {uuidStr entry.id} listed twice in this stage")
    checkStageLines entriesById (entry.id :: seen) rest

/-- A percentage with the four decimals the column keeps. -/
def percentText (pct : Decimal) : String :=
  let units := (pct.num * 10000 / pct.den).natAbs
  let digits := Nat.toDigits 10 (units % 10000)
  toString (units / 10000) ++ "." ++
    String.ofList (List.replicate (4 - digits.length) '0' ++ digits)

/-- The stages together may take at most the whole of a BOM line. -/
def checkCommitted (committed : List (Uuid × Decimal)) (line : BuildStageLineIn) :
    Except Err Unit :=
  let total := (Dict.find line.projectEntryId committed).getD 0 + line.portionPct
  Outcome.check (total ≤ 100)
    (.build (s!"project entry {uuidStr line.projectEntryId} is over-committed " ++
      s!"({percentText total}% across stages; max 100%)"))

/-- The sequence a new stage gets: the requested one, or one past the last. -/
def nextSequence (existing : List BuildStage) (requested : Option ℕ) : Except Err ℕ :=
  match requested with
  | none => .ok (((existing.map fun s => s.sequence + 1).max?).getD 0)
  | some sequence => do
    Outcome.check (∀ s ∈ existing, s.sequence ≠ sequence)
      (.build s!"stage sequence {sequence} already used by this build")
    return sequence

def newStageLine (ctx : Ctx) (id stageId : Uuid) (line : BuildStageLineIn) : BuildStageLine where
  id := id
  workspaceId := ctx.workspaceId
  buildStageId := stageId
  projectEntryId := line.projectEntryId
  portionPct := line.portionPct
  archivedAt := none
  createdBy := ctx.userId
  updatedBy := ctx.userId
  portionRange := line.portionRange

def insertStageLines (ctx : Ctx) (db : Db) (stageId : Uuid) :
    List BuildStageLineIn → Except Err Db
  | [] => .ok db
  | line :: rest => do
    let db ← db.insertBuildStageLine (newStageLine ctx (ctx.child 0).uuid4 stageId line)
    insertStageLines (ctx.child 1) db stageId rest

/-- The row `create_stage` adds. -/
def newStage (ctx : Ctx) (build : Build) (payload : BuildStageCreateIn) (sequence : ℕ) :
    BuildStage where
  id := ctx.uuid4
  workspaceId := ctx.workspaceId
  buildId := build.id
  name := payload.name
  sequence := sequence
  status := .planned
  startedAt := none
  completedAt := none
  comments := payload.comments
  archivedAt := none
  createdAt := ctx.utcnow
  createdBy := ctx.userId
  updatedBy := ctx.userId

def createStage (ctx : Ctx) (db : Db) (build : Build) (project : Project)
    (payload : BuildStageCreateIn) : Except Err (BuildStage × Db) := do
  Outcome.check (build.status ≠ .complete ∧ build.status ≠ .cancelled)
    (.build s!"build is {build.status.str}")
  Outcome.check (build.archivedAt = none) (.build "build is archived")
  let existing := listStages db ctx.workspaceId build
  let entriesById := projectEntriesById db ctx.workspaceId project
  checkStageLines entriesById [] payload.lines
  let committed := committedPortions db ctx.workspaceId (existing.map (·.id))
  Outcome.each (checkCommitted committed) payload.lines
  let sequence ← nextSequence existing payload.sequence
  let stage := newStage (ctx.child 0) build payload sequence
  let db ← db.insertBuildStage stage
  let db ← insertStageLines (ctx.child 1) db stage.id payload.lines
  return (stage, db)

/-! ### Consuming a stage -/

/-- `{entry: quantity}` of the stage, without the empty slices. -/
def requiredOfStage (db : Db) (workspaceId : Uuid) (build : Build) (project : Project)
    (stageId : Uuid) : List (Uuid × ℤ) :=
  (stageAllocation db workspaceId build project stageId).filter fun item => 0 < item.2

/-- What the stage releases, grouped by the part of the BOM entry. -/
def releaseAmounts (entriesById : List (Uuid × ProjectEntry)) (requiredByEntry : List (Uuid × ℤ)) :
    List (Uuid × Decimal) :=
  Dict.totals Prod.fst Prod.snd (requiredByEntry.filterMap fun item =>
    ((Dict.find item.1 entriesById).bind (·.partId)).map fun partId => (partId, (item.2 : Decimal)))

structure StageConsumeResult where
  buildId : Uuid
  buildStageId : Uuid
  buildStatus : BuildStatus
  consumedEntries : List StockEntry
  remainingStages : ℕ
  output : Option (Lot × StockEntry)

def consumedStage (ctx : Ctx) (now : Timestamp) (s : BuildStage) : BuildStage :=
  { s with
    status := .complete
    startedAt := some (s.startedAt.getD now)
    completedAt := some now
    updatedBy := ctx.userId }

def startedBuild (ctx : Ctx) (now : Timestamp) (b : Build) : Build :=
  { b with
    startedAt := some (b.startedAt.getD now)
    status := if b.status = .planned then .inProgress else b.status
    updatedBy := ctx.userId }

/-- The stage, and its build, after the stage's lines are drawn. -/
def markStageConsumed (ctx : Ctx) (db : Db) (build : Build) (stage : BuildStage)
    (now : Timestamp) : Db :=
  (db.updateBuildStage stage.id (consumedStage ctx now)).updateBuild build.id
    (startedBuild ctx now)

/-- The last stage produces the output, closes the build and frees what is
still reserved. -/
def finishBuild (ctx : Ctx) (db : Db) (build : Build) (project : Project) (payload : ConsumeIn)
    (now : Timestamp) : Except Err (Option (Lot × StockEntry) × Db) := do
  let (output, db) ← produceOutput (ctx.child 0) db build project
    payload.outputStorageLocationId payload.outputLotName now
  let db := completeBuild ctx db build (output.map Prod.fst) now
  let (_, db) ← releaseReservations (ctx.child 1) db build
  return (output, db)

def consumeStage (ctx : Ctx) (db : Db) (build : Build) (project : Project) (stage : BuildStage)
    (payload : ConsumeIn) : Except Err (StageConsumeResult × Db) := do
  Outcome.check (build.archivedAt = none) (.build "build is archived")
  -- Both rows are refreshed after `lock_for_consume`.
  let build := (db.build build.id).getD build
  let stage := (db.buildStage stage.id).getD stage
  Outcome.check (build.status = .planned ∨ build.status = .inProgress)
    (.build s!"build is {build.status.str}")
  Outcome.check (stage.status ≠ .complete)
    (.build s!"stage '{stage.name}' is already complete")
  let stages := listStages db ctx.workspaceId build
  Outcome.each (fun earlier : BuildStage => Outcome.check (earlier.status = .complete)
      (.build (s!"stage '{earlier.name}' (sequence {earlier.sequence}) must be " ++
        s!"consumed before '{stage.name}'")))
    (stages.takeWhile fun s => s.id ≠ stage.id)
  let requiredByEntry := requiredOfStage db ctx.workspaceId build project stage.id
  Outcome.check (requiredByEntry ≠ []) (.build s!"stage '{stage.name}' has nothing to consume")
  let entriesById := projectEntriesById db ctx.workspaceId project
  let (_, db) ← releaseReservationAmounts (ctx.child 0) db build
    (releaseAmounts entriesById requiredByEntry) (some stage.id)
  let now := ctx.utcnow
  let (consumedEntries, db) ← applyConsumeLines (ctx.child 1) db build project payload.lines
    entriesById requiredByEntry now (some stage.id)
  let db := markStageConsumed ctx db build stage now
  let outstanding := stages.filter fun s => s.id ≠ stage.id ∧ s.status ≠ .complete
  if outstanding = [] then
    let (output, db) ← finishBuild (ctx.child 2) db build project payload now
    return (⟨build.id, stage.id, .complete, consumedEntries, 0, output⟩, db)
  else
    return (⟨build.id, stage.id, .inProgress, consumedEntries, outstanding.length, none⟩, db)

def hasStages (db : Db) (workspaceId : Uuid) (build : Build) : Bool :=
  db.buildStages.any fun s =>
    s.workspaceId = workspaceId ∧ s.buildId = build.id ∧ s.archivedAt = none

/-- Some stage of the build, archived or not, has already drawn stock. -/
def hasConsumedStage (db : Db) (workspaceId : Uuid) (build : Build) : Bool :=
  db.buildStages.any fun s => s.workspaceId = workspaceId ∧ s.buildId = build.id ∧
    s.status ≠ .planned ∧ s.status ≠ .inProgress

end StockManager
