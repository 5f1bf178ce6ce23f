import Mathlib.Data.List.Sort
import StockManager.Model.Stock

/-! # Builds (domain/builds/service.py)

What a build requires of its BOM, the reservations it holds, and the
whole-BOM consume. -/

namespace StockManager

/-! ### Request bodies (domain/builds/schemas.py) -/

structure ConsumeLineIn where
  projectEntryId : Uuid
  partId : Uuid
  quantity : ℤ
  lotId : Option Uuid
  storageLocationId : Option Uuid
  quantityPos : 0 < quantity

/-- `ConsumeIn`, and `StageConsumeIn`, which has the same fields. -/
structure ConsumeIn where
  lines : List ConsumeLineIn
  outputStorageLocationId : Option Uuid
  outputLotName : Option String
  linesNonempty : lines ≠ []

/-! ### What a BOM requires -/

/-- `_required`: attrition of the part and of the line compound, and the part's
minimum extra is a floor. -/
def required (entry : ProjectEntry) (part : Option Part) (buildQty : ℤ) : ℤ :=
  let base := entry.quantity * buildQty
  let partPct := part.elim 0 (·.attritionPercentage)
  let linePct := entry.attritionPct
  let floorExtra := part.elim 0 (·.attritionMinQuantity)
  let target := base * (1 + partPct / 100) * (1 + linePct / 100)
  ⌈max target (base + floorExtra)⌉

/-- `_candidate_part_ids`: members of a meta-part, substitutes of any other. -/
def candidatePartIds (db : Db) (part : Part) : List Uuid :=
  if part.partType = .metaPart then
    ((db.partMetaMembers.filter fun m =>
      m.workspaceId = part.workspaceId ∧ m.metaPartId = part.id).map (·.partId)).filter
        (· ≠ part.id)
  else
    ((db.partSubstitutes.filter fun s => s.workspaceId = part.workspaceId ∧
      (s.partId = part.id ∨ s.substitutePartId = part.id ∧ s.direction = .bidirectional)).map
        fun s => if s.partId = part.id then s.substitutePartId else s.partId).filter
          (· ≠ part.id)

/-- A BOM line that takes part in a build. -/
def ProjectEntry.consumable (e : ProjectEntry) : Prop :=
  e.dnp = false ∧ (e.entryType = .part ∨ e.entryType = .metaPart) ∧ e.partId.isSome

instance (e : ProjectEntry) : Decidable e.consumable :=
  inferInstanceAs (Decidable (_ ∧ _ ∧ _))

/-- `project_entries_by_id`, as the rows of the dictionary. -/
def projectEntriesOf (db : Db) (workspaceId : Uuid) (project : Project) : List ProjectEntry :=
  db.projectEntries.filter fun e => e.workspaceId = workspaceId ∧ e.projectId = project.id

def projectEntriesById (db : Db) (workspaceId : Uuid) (project : Project) :
    List (Uuid × ProjectEntry) :=
  (projectEntriesOf db workspaceId project).foldl (fun d e => Dict.put e.id e d) []

/-- `_consumable_entries`, in BOM order. -/
def consumableEntries (db : Db) (workspaceId : Uuid) (project : Project) : List ProjectEntry :=
  ((projectEntriesOf db workspaceId project).insertionSort
    (fun a b => a.orderIndex ≤ b.orderIndex)).filter fun e => e.consumable

/-! ### Reservations -/

/-- The reserve row of one BOM entry, when its part exists and something is required. -/
def reserveRow (ctx : Ctx) (db : Db) (build : Build) (project : Project) (now : Timestamp)
    (id : Uuid) (e : ProjectEntry) : Option StockEntry :=
  match e.partId.bind db.part with
  | none => none
  | some part =>
    let qty := required e (some part) build.quantity
    if qty ≤ 0 then none
    else some
      { newStockEntry ctx id part.id qty (unitForPart (some part)) .reserved .reserve now with
        buildId := some build.id
        projectId := some project.id }

def reserveEntries (ctx : Ctx) (db : Db) (build : Build) (project : Project) (now : Timestamp) :
    List ProjectEntry → Except Err (ℕ × Db)
  | [] => .ok (0, db)
  | e :: rest =>
    match reserveRow ctx db build project now (ctx.child 0).uuid4 e with
    | none => reserveEntries (ctx.child 1) db build project now rest
    | some row => do
      let db ← db.insertStockEntry row
      let (written, db) ← reserveEntries (ctx.child 1) db build project now rest
      return (written + 1, db)

/-- One `reserved` row per consumable BOM entry. -/
def applyReservations (ctx : Ctx) (db : Db) (build : Build) (project : Project) :
    Except Err (ℕ × Db) :=
  reserveEntries ctx db build project ctx.utcnow
    (consumableEntries db ctx.workspaceId project)

/-- The reserve rows of a build, in the order releases drain them. -/
def reserveRowsOf (db : Db) (workspaceId : Uuid) (build : Build) : List StockEntry :=
  (db.stockEntries.filter fun e => e.workspaceId = workspaceId ∧ e.buildId = some build.id ∧
    e.status = .reserved ∧ e.operationType = .reserve).insertionSort
      fun a b => a.occurredAt < b.occurredAt ∨ a.occurredAt = b.occurredAt ∧ a.id ≤ b.id

/-- Released quantity per reserve row, from the release rows that point at it. -/
def releasedByReserve (db : Db) (workspaceId : Uuid) (build : Build) :
    List (Option Uuid × Decimal) :=
  Dict.totals (·.relatedEntryId) (fun e => -e.quantityDelta)
    (db.stockEntries.filter fun e => e.workspaceId = workspaceId ∧ e.buildId = some build.id ∧
      e.status = .reserved ∧ e.operationType = .release ∧ e.relatedEntryId ≠ none)

/-- `_outstanding_reservations`: the part of every reserve row, and each row
with a remainder beside it. -/
def outstandingReservations (db : Db) (workspaceId : Uuid) (build : Build) :
    List (Option Uuid) × List (StockEntry × Decimal) :=
  let reserveRows := reserveRowsOf db workspaceId build
  let released := releasedByReserve db workspaceId build
  (reserveRows.map (·.partId), reserveRows.filterMap fun r =>
    let remaining := r.quantityDelta - (Dict.find (some r.id) released).getD 0
    if 0 < remaining then some (r, remaining) else none)

/-- `_write_release` builds the counter-row of a reserve row. -/
def releaseRow (ctx : Ctx) (id : Uuid) (build : Build) (reserve : StockEntry) (quantity : Decimal)
    (buildStageId : Option Uuid) (now : Timestamp) : StockEntry :=
  { newStockEntry ctx id reserve.partId (-quantity) reserve.unit .reserved .release now with
    relatedEntryId := some reserve.id
    buildId := some build.id
    buildStageId := buildStageId
    projectId := reserve.projectId }

def writeReleases (ctx : Ctx) (db : Db) (build : Build) (buildStageId : Option Uuid)
    (now : Timestamp) : List (StockEntry × Decimal) → Except Err (ℕ × Db)
  | [] => .ok (0, db)
  | (reserve, quantity) :: rest => do
    let db ← db.insertStockEntry
      (releaseRow ctx (ctx.child 0).uuid4 build reserve quantity buildStageId now)
    let (written, db) ← writeReleases (ctx.child 1) db build buildStageId now rest
    return (written + 1, db)

/-- Counters every outstanding reserve row of the build in full. -/
def releaseReservations (ctx : Ctx) (db : Db) (build : Build) : Except Err (ℕ × Db) :=
  let (allPartIds, outstanding) := outstandingReservations db ctx.workspaceId build
  if allPartIds = [] then .ok (0, db)
  else writeReleases ctx db build none ctx.utcnow outstanding

/-- What draining `want` takes from each row, oldest first. -/
def drainReserves (want : Decimal) : List (StockEntry × Decimal) → List (StockEntry × Decimal)
  | [] => []
  | (reserve, remaining) :: rest =>
    if want ≤ 0 then []
    else (reserve, min want remaining) :: drainReserves (want - min want remaining) rest

/-- The releases `release_reservation_amounts` writes, part by part. -/
def plannedReleases (outstanding : List (StockEntry × Decimal)) (amounts : List (Uuid × Decimal)) :
    List (StockEntry × Decimal) :=
  let byPart := Dict.gather (fun r => r.1.partId) id outstanding
  ((Dict.keys amounts).insertionSort (· ≤ ·)).flatMap fun partId =>
    drainReserves ((Dict.find partId amounts).getD 0) ((Dict.find (some partId) byPart).getD [])

def releaseReservationAmounts (ctx : Ctx) (db : Db) (build : Build)
    (amounts : List (Uuid × Decimal)) (buildStageId : Option Uuid) : Except Err (ℕ × Db) :=
  let (allPartIds, outstanding) := outstandingReservations db ctx.workspaceId build
  if allPartIds = [] then .ok (0, db)
  else writeReleases ctx db build buildStageId ctx.utcnow (plannedReleases outstanding amounts)

/-! ### Consuming -/

/-- The parts `lock_for_consume` locks, in lock order. -/
def lockForConsume (db : Db) (workspaceId : Uuid) (project : Project) (linePartIds : List Uuid) :
    List Uuid :=
  let bomPartIds := (consumableEntries db workspaceId project).filterMap (·.partId)
  ((bomPartIds ++ linePartIds ++ project.associatedSubassemblyPartId.toList).dedup).insertionSort
    (· ≤ ·)

/-- The pre-pass: the total demand on one (part, lot, storage) tuple. -/
def checkDemand (ctx : Ctx) (db : Db) (item : (Uuid × Option Uuid × Option Uuid) × ℤ) :
    Except Err Unit :=
  let ((partId, lotId, storageLocationId), totalDemand) := item
  let avail := currentQuantity db ctx.workspaceId partId storageLocationId lotId .onHand true
  Outcome.check (totalDemand ≤ avail)
    (.build (s!"insufficient stock for part {uuidStr partId} " ++
      s!"(have {quantityOut avail}, want {totalDemand})"))

/-- The part of a line must be the entry's own, or a candidate for it. -/
def checkLinePart (db : Db) (e : ProjectEntry) (entryPartId linePartId : Uuid) :
    Except Err Unit :=
  if linePartId = entryPartId then .ok ()
  else do
    let entryPart ← Outcome.orRaise (db.part entryPartId)
      (.build s!"entry {uuidStr e.id} has missing part")
    let kind := if entryPart.partType = .metaPart then "a meta-part member" else "a substitute"
    Outcome.check (linePartId ∈ candidatePartIds db entryPart)
      (.build s!"part {uuidStr linePartId} is not {kind} for entry {uuidStr e.id}")

/-- One turn of the consume loop. -/
def consumeLine (ctx : Ctx) (db : Db) (build : Build) (project : Project)
    (entriesById : List (Uuid × ProjectEntry)) (requiredByEntry : List (Uuid × ℤ))
    (now : Timestamp) (buildStageId : Option Uuid) (line : ConsumeLineIn) :
    Except Err (StockEntry × Db) := do
  let e ← Outcome.orRaise (Dict.find line.projectEntryId entriesById)
    (.build s!"project entry {uuidStr line.projectEntryId} not in this project")
  Outcome.check ((e.entryType = .part ∨ e.entryType = .metaPart) ∧ e.partId.isSome)
    (.build s!"project entry {uuidStr e.id} has no part to consume")
  Outcome.check (e.dnp = false) (.build s!"project entry {uuidStr e.id} is DNP")
  Outcome.check (e.id ∈ Dict.keys requiredByEntry)
    (.build s!"project entry {uuidStr e.id} is not in this stage")
  Outcome.each (fun entryPartId => checkLinePart db e entryPartId line.partId) e.partId.toList
  checkLotRef db ctx.workspaceId line.lotId
    (.build s!"lot {uuidStr (line.lotId.getD 0)} not in workspace")
  checkStorageRef db ctx.workspaceId line.storageLocationId
    (.build s!"storage {uuidStr (line.storageLocationId.getD 0)} not in workspace")
  let avail := currentQuantity db ctx.workspaceId line.partId line.storageLocationId line.lotId
    .onHand true
  Outcome.check (line.quantity ≤ avail)
    (.build (s!"insufficient stock for part {uuidStr line.partId} " ++
      s!"(have {quantityOut avail}, want {line.quantity})"))
  let entryRow : StockEntry :=
    { newStockEntry ctx ctx.uuid4 line.partId (-line.quantity)
        (unitForPart (db.part line.partId)) .onHand .buildConsume now with
      lotId := line.lotId
      storageLocationId := line.storageLocationId
      buildId := some build.id
      buildStageId := buildStageId
      projectId := some project.id }
  let db ← db.insertStockEntry entryRow
  return (entryRow, db)

def consumeLines (ctx : Ctx) (db : Db) (build : Build) (project : Project)
    (entriesById : List (Uuid × ProjectEntry)) (requiredByEntry : List (Uuid × ℤ))
    (now : Timestamp) (buildStageId : Option Uuid) :
    List ConsumeLineIn → Except Err (List StockEntry × Db)
  | [] => .ok ([], db)
  | line :: rest => do
    let (entryRow, db) ← consumeLine (ctx.child 0) db build project entriesById requiredByEntry
      now buildStageId line
    let (others, db) ← consumeLines (ctx.child 1) db build project entriesById requiredByEntry
      now buildStageId rest
    return (entryRow :: others, db)

/-- Every entry this pass is responsible for must be covered. -/
def checkCovered (db : Db) (entriesById : List (Uuid × ProjectEntry))
    (requestedByEntry : List (Uuid × ℤ)) (item : Uuid × ℤ) : Except Err Unit :=
  let (entryId, req) := item
  match (Dict.find entryId entriesById).bind fun e => e.partId.bind db.part with
  | none => .ok ()
  | some part =>
    let got := (Dict.find entryId requestedByEntry).getD 0
    Outcome.check (req ≤ got)
      (.build (s!"entry {uuidStr entryId} ({part.name}) under-consumed " ++
        s!"(need {req}, supplied {got})"))

/-- `apply_consume_lines`, shared by the whole-build and the per-stage consume. -/
def applyConsumeLines (ctx : Ctx) (db : Db) (build : Build) (project : Project)
    (lines : List ConsumeLineIn) (entriesById : List (Uuid × ProjectEntry))
    (requiredByEntry : List (Uuid × ℤ)) (now : Timestamp) (buildStageId : Option Uuid) :
    Except Err (List StockEntry × Db) := do
  let demandByTuple := Dict.totals
    (fun l : ConsumeLineIn => (l.partId, l.lotId, l.storageLocationId)) (·.quantity) lines
  Outcome.each (checkDemand ctx db) demandByTuple
  let (consumedEntries, db) ← consumeLines ctx db build project entriesById requiredByEntry now
    buildStageId lines
  let requestedByEntry :=
    Dict.totals (fun l : ConsumeLineIn => l.projectEntryId) (·.quantity) lines
  Outcome.each (checkCovered db entriesById requestedByEntry) requiredByEntry
  return (consumedEntries, db)

/-- `produce_output`: the output lot and its ledger row, when the project has a
sub-assembly part. -/
def produceOutput (ctx : Ctx) (db : Db) (build : Build) (project : Project)
    (outputStorageLocationId : Option Uuid) (outputLotName : Option String) (now : Timestamp) :
    Except Err (Option (Lot × StockEntry) × Db) :=
  match project.associatedSubassemblyPartId with
  | none => .ok (none, db)
  | some subPartId => do
    let subPart ← partInWorkspace db ctx.workspaceId subPartId
      (.build "project's sub-assembly part not in workspace")
    let storage ← destination db ctx.workspaceId outputStorageLocationId subPart.id
      (.build "output storage not in workspace") (.build "output storage archived or full")
      (.build "output storage archived or full")
    let name := match outputLotName with
      | none => s!"{build.name}-out"
      | some text => if text = "" then s!"{build.name}-out" else text
    let outputLot : Lot :=
      { newLot ctx (ctx.child 0).uuid4 subPart.id (some name) .build build.quantity with
        sourceBuildId := some build.id }
    let db ← db.insertLot outputLot
    let outputEntry : StockEntry :=
      { newStockEntry ctx (ctx.child 1).uuid4 subPart.id build.quantity
          (unitForPart (some subPart)) .onHand .buildProduce now with
        lotId := some outputLot.id
        storageLocationId := storage.map (·.id)
        buildId := some build.id
        projectId := some project.id }
    let db ← db.insertStockEntry outputEntry
    return (some (outputLot, outputEntry), db)

def completedBuild (ctx : Ctx) (outputLot : Option Lot) (now : Timestamp) (b : Build) : Build :=
  { b with
    status := .complete
    startedAt := some (b.startedAt.getD now)
    completedAt := some now
    outputLotId := outputLot.map (·.id)
    updatedBy := ctx.userId }

def completeBuild (ctx : Ctx) (db : Db) (build : Build) (outputLot : Option Lot)
    (now : Timestamp) : Db :=
  db.updateBuild build.id (completedBuild ctx outputLot now)

structure ConsumeResult where
  buildId : Uuid
  consumedEntries : List StockEntry
  output : Option (Lot × StockEntry)

/-- What the single pass must cover: every consumable entry in full. -/
def requiredOfBuild (db : Db) (workspaceId : Uuid) (build : Build) (project : Project) :
    List (Uuid × ℤ) :=
  (consumableEntries db workspaceId project).foldl
    (fun d e => match e.partId.bind db.part with
      | none => d
      | some part => Dict.put e.id (required e (some part) build.quantity) d) []

def consume (ctx : Ctx) (db : Db) (build : Build) (project : Project) (payload : ConsumeIn) :
    Except Err (ConsumeResult × Db) := do
  Outcome.check (build.status = .planned ∨ build.status = .inProgress)
    (.build s!"build is {build.status.str}")
  let (_, db) ← releaseReservations (ctx.child 0) db build
  let entriesById := projectEntriesById db ctx.workspaceId project
  let requiredByEntry := requiredOfBuild db ctx.workspaceId build project
  let now := ctx.utcnow
  let (consumedEntries, db) ← applyConsumeLines (ctx.child 1) db build project payload.lines
    entriesById requiredByEntry now none
  let (output, db) ← produceOutput (ctx.child 2) db build project
    payload.outputStorageLocationId payload.outputLotName now
  let db := completeBuild ctx db build (output.map Prod.fst) now
  return (⟨build.id, consumedEntries, output⟩, db)

end StockManager

/-! ## Shortage analysis and buyability (domain/builds/service.py, domain/reports/service.py) -/

namespace StockManager

/-- A row of `shortage_analysis`. -/
structure ShortageRow where
  projectEntryId : Uuid
  partId : Uuid
  partName : String
  attritionPct : Decimal
  required : ℤ
  available : Decimal
  substituteIds : List Uuid
  substituteAvailable : Decimal
  shortBy : Decimal
  deriving DecidableEq

def onHandTotal (db : Db) (workspaceId partId : Uuid) : Decimal :=
  currentQuantity db workspaceId partId none none .onHand false

def shortageRow (db : Db) (workspaceId : Uuid) (buildQuantity : ℤ) (e : ProjectEntry)
    (part : Part) : ShortageRow :=
  let required := required e (some part) buildQuantity
  let available := onHandTotal db workspaceId part.id
  let subIds := candidatePartIds db part
  let subAvail := (subIds.map (onHandTotal db workspaceId)).sum
  { projectEntryId := e.id
    partId := part.id
    partName := part.name
    attritionPct := e.attritionPct
    required := required
    available := available
    substituteIds := subIds
    substituteAvailable := subAvail
    shortBy := max 0 (required - (available + subAvail)) }

def shortageAnalysis (db : Db) (workspaceId : Uuid) (project : Project) (buildQuantity : ℤ) :
    List ShortageRow :=
  (consumableEntries db workspaceId project).filterMap fun e =>
    (e.partId.bind db.part).map (shortageRow db workspaceId buildQuantity e)

/-- `int(a // b)`: a quotient of `Decimal`s is cut towards zero. -/
def truncDiv (a b : Decimal) : ℤ := if 0 ≤ a / b then ⌊a / b⌋ else ⌈a / b⌉

def canBuildNow (rows : List ShortageRow) (buildQuantity : ℤ) : ℤ :=
  match ((rows.filter fun row => 0 < row.required).map fun row =>
    truncDiv ((row.available + row.substituteAvailable) * buildQuantity) row.required).min? with
  | some n => n
  | none => 0

structure ProjectBuyabilityRow where
  projectId : Uuid
  buildQuantity : ℤ
  canBuildNow : ℤ
  canBuildAfterPurchase : ℤ
  blockingLinesCount : ℕ
  estPurchaseCost : Option Decimal
  deriving DecidableEq

def unsourcedRow (db : Db) (workspaceId : Uuid) (project : Project) (buildQuantity : ℤ) :
    ProjectBuyabilityRow :=
  let rows := shortageAnalysis db workspaceId project buildQuantity
  { projectId := project.id
    buildQuantity := buildQuantity
    canBuildNow := canBuildNow rows buildQuantity
    canBuildAfterPurchase := canBuildNow rows buildQuantity
    blockingLinesCount := (rows.filter fun row => 0 < row.shortBy).length
    estPurchaseCost := none }

end StockManager
