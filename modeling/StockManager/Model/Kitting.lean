import StockManager.Model.Stages

/-! # Kitting (domain/builds/kitting.py)

A kit moves what a build, or one stage of it, still lacks onto a staging
location. It writes nothing but move pairs. -/

namespace StockManager

/-- One bucket a kit draws from. -/
structure KitSource where
  storageLocationId : Option Uuid
  lotId : Option Uuid
  quantity : Decimal

structure KitLine where
  partId : Uuid
  partName : String
  projectEntryIds : List Uuid
  required : Decimal
  atStaging : Decimal
  toMove : Decimal
  sources : List KitSource

def KitLine.moving (line : KitLine) : Decimal := (line.sources.map (·.quantity)).sum

def resolveStaging (db : Db) (workspaceId storageLocationId : Uuid) :
    Except Err StorageLocation :=
  openLocation db workspaceId storageLocationId (.build "staging location not found")
    (.build "staging location is archived") (.build "staging location is marked full")

/-- The demand `(part, entry, quantity)` of a kit, in BOM order. -/
def kitDemand (db : Db) (workspaceId : Uuid) (build : Build) (project : Project)
    (stage : Option BuildStage) : List (Uuid × Uuid × Decimal) :=
  let wanted := match stage with
    | none => requiredOfBuild db workspaceId build project
    | some s => stageAllocation db workspaceId build project s.id
  (consumableEntries db workspaceId project).filterMap fun e =>
    let quantity : ℤ := (Dict.find e.id wanted).getD 0
    match e.partId with
    | none => none
    | some partId => if quantity ≤ 0 then none else some (partId, e.id, (quantity : Decimal))

def requiredByPart (db : Db) (workspaceId : Uuid) (build : Build) (project : Project)
    (stage : Option BuildStage) : List (Uuid × Decimal) × List (Uuid × List Uuid) :=
  let demand := kitDemand db workspaceId build project stage
  (Dict.totals (·.1) (·.2.2) demand, Dict.gather (·.1) (·.2.1) demand)

/-- `str(id or "")` as a sort key: a missing id comes first. -/
def idKey : Option Uuid → ℕ
  | none => 0
  | some u => u + 1

/-- Take `remaining` from the buckets in turn. -/
def takeBuckets (remaining : Decimal) : List PartStockRow → List KitSource
  | [] => []
  | b :: rest =>
    if remaining ≤ 0 then []
    else
      let take := min remaining b.quantity
      ⟨b.storageLocationId, b.lotId, take⟩ :: takeBuckets (remaining - take) rest

/-- `_sources_for`: largest bucket first, ties by the ids. -/
def sourcesFor (db : Db) (workspaceId partId stagingId : Uuid) (wanted : Decimal) :
    List KitSource :=
  let buckets := (stockSummaryForPart db workspaceId partId .onHand).filter fun row =>
    row.storageLocationId ≠ some stagingId ∧ 0 < row.quantity
  takeBuckets wanted (buckets.insertionSort fun a b => b.quantity < a.quantity ∨
    a.quantity = b.quantity ∧ (idKey a.storageLocationId < idKey b.storageLocationId ∨
      idKey a.storageLocationId = idKey b.storageLocationId ∧ idKey a.lotId ≤ idKey b.lotId))

def kitLine (db : Db) (workspaceId : Uuid) (staging : StorageLocation)
    (entryIds : List (Uuid × List Uuid)) (item : Uuid × Decimal) : Option KitLine :=
  let (partId, wanted) := item
  match belongs Part.workspaceId workspaceId (db.part partId) with
  | none => none
  | some part =>
    -- Everything of the part that already lies on the tray, in any lot.
    let atStaging := currentQuantity db workspaceId partId (some staging.id) none .onHand false
    let toMove := max 0 (wanted - atStaging)
    some
      { partId := partId
        partName := part.name
        projectEntryIds := (Dict.find partId entryIds).getD []
        required := wanted
        atStaging := atStaging
        toMove := toMove
        sources := if 0 < toMove then sourcesFor db workspaceId partId staging.id toMove else [] }

def planKit (db : Db) (workspaceId : Uuid) (build : Build) (project : Project)
    (stage : Option BuildStage) (staging : StorageLocation) : List KitLine :=
  let (perPart, entryIds) := requiredByPart db workspaceId build project stage
  perPart.filterMap (kitLine db workspaceId staging entryIds)

def kitMoves (ctx : Ctx) (db : Db) (build : Build) (stage : Option BuildStage)
    (staging : StorageLocation) : List (Uuid × KitSource) → Except Err Db
  | [] => .ok db
  | (partId, source) :: rest => do
    let (_, db) ← moveQuantity (ctx.child 0) db partId source.quantity source.storageLocationId
      source.lotId staging.id (some s!"kit for build {build.name}") (some build.id)
      (stage.map (·.id))
    kitMoves (ctx.child 1) db build stage staging rest

/-- `execute_kit`: a shortfall is reported, any failing move raises. -/
def executeKit (ctx : Ctx) (db : Db) (build : Build) (project : Project)
    (stage : Option BuildStage) (staging : StorageLocation) : Except Err (List KitLine × Db) := do
  Outcome.check (build.archivedAt = none) (.build "build is archived")
  Outcome.check (build.status = .planned ∨ build.status = .inProgress)
    (.build s!"build is {build.status.str}")
  Outcome.each (fun s : BuildStage => Outcome.check (s.status ≠ .complete)
    (.build s!"stage '{s.name}' is already complete")) stage.toList
  let lines := planKit db ctx.workspaceId build project stage staging
  let db ← kitMoves ctx db build stage staging
    (lines.flatMap fun line => line.sources.map fun source => (line.partId, source))
  return (lines, db)

end StockManager
