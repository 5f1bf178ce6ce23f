import Mathlib.Algebra.Order.Group.Defs
import Mathlib.Data.Prod.Lex
import Mathlib.Data.String.Basic
import Mathlib.Order.WithBot
import StockManager.Model.Stages

/-! # Pick lists (domain/builds/picklist.py)

The sheet says how many of every part to take from which location and lot. All
BOM lines of one part are served from one pool, which they drain in BOM order. -/

namespace StockManager

/-! ### Stock by location (domain/stock/service.py) -/

structure LocationStock where
  storageLocationId : Option Uuid
  lotId : Option Uuid
  unit : String
  quantity : Decimal
  deriving DecidableEq

/-- A group of `bulk_stock_by_location`, unless it holds nothing. -/
def locationStock (item : (Option Uuid × Option Uuid × Option Uuid × String) × Decimal) :
    Option (Uuid × LocationStock) :=
  let ((partId, storageLocationId, lotId, unit), quantity) := item
  if quantity ≤ 0 then none
  else partId.map fun id => (id, ⟨storageLocationId, lotId, unit, quantity⟩)

def bulkStockByLocation (db : Db) (workspaceId : Uuid) (partIds : List Uuid)
    (status : StockStatus) : List (Uuid × List LocationStock) :=
  let rows := db.stockEntries.filter fun e => e.workspaceId = workspaceId ∧ e.status = status ∧
    ∃ partId ∈ partIds, e.partId = some partId
  let grouped := Dict.totals (fun e => (e.partId, e.storageLocationId, e.lotId, e.unit))
    (·.quantityDelta) rows
  Dict.gather Prod.fst Prod.snd (grouped.filterMap locationStock)

/-! ### Allocating picks -/

/-- A bucket of the pool; `unclaimed` is what earlier picks left of `available`. -/
structure PickBucket where
  storageLocationId : Option Uuid
  storageLocationName : Option String
  lotId : Option Uuid
  lotName : Option String
  unit : String
  available : Decimal
  unclaimed : Decimal
  deriving DecidableEq

/-- What the stock service groups by. -/
def PickBucket.key (b : PickBucket) : Option Uuid × Option Uuid × String :=
  (b.storageLocationId, b.lotId, b.unit)

structure BucketPick where
  bucket : PickBucket
  take : Decimal
  deriving DecidableEq

def unassignedStopName : String := "Unassigned"

section Allocation

variable (casefold : String → String)

/-- `_sort_key_for_stop`: named locations by name, unassigned stock last. -/
def sortKeyForStop : Option String → ℕ ×ₗ String
  | none => toLex (1, "")
  | some name => toLex (0, casefold name)

/-- The sort key of `_allocate_picks`; a bucket without a lot has the empty text,
which is below every id. -/
def PickBucket.sortKey (b : PickBucket) : Decimal ×ₗ (ℕ ×ₗ String) ×ₗ WithBot Uuid :=
  toLex (-b.unclaimed, toLex (sortKeyForStop casefold b.storageLocationName, b.lotId))

/-- The loop of `_allocate_picks` over the sorted buckets. -/
def takePicks : Decimal → List PickBucket → List BucketPick
  | _, [] => []
  | remaining, bucket :: rest =>
    if remaining ≤ 0 then []
    else
      let take := min remaining bucket.unclaimed
      if take ≤ 0 then takePicks remaining rest
      else ⟨{ bucket with unclaimed := bucket.unclaimed - take }, take⟩ ::
        takePicks (remaining - take) rest

/-- What the picks took of the bucket with this key. -/
def takenOf (picks : List BucketPick) (key : Option Uuid × Option Uuid × String) : Decimal :=
  tally (fun p => p.bucket.key = key) (·.take) picks

/-- The bucket after the in-place drain: no two buckets of a pool have one key. -/
def PickBucket.drain (picks : List BucketPick) (b : PickBucket) : PickBucket :=
  { b with unclaimed := b.unclaimed - takenOf picks b.key }

/-- `_allocate_picks`: the picks, and the pool they leave. -/
def allocatePicks (required : Decimal) (buckets : List PickBucket) :
    List BucketPick × List PickBucket :=
  let ordered := buckets.insertionSort fun a b => a.sortKey casefold ≤ b.sortKey casefold
  let picks := takePicks required ordered
  (picks, buckets.map (·.drain picks))

end Allocation

/-! ### The lines of the sheet -/

structure PickRow where
  entry : ProjectEntry
  part : Part
  required : Decimal
  portionPct : Option Decimal

/-- `_part_in_workspace` -/
def bomPart (db : Db) (workspaceId : Uuid) (entry : ProjectEntry) : Option Part :=
  belongs Part.workspaceId workspaceId (entry.partId.bind db.part)

def pickRow (db : Db) (workspaceId : Uuid) (entry : ProjectEntry) (required : Part → Decimal)
    (portionPct : Option Decimal) : Option PickRow :=
  (bomPart db workspaceId entry).map fun part => ⟨entry, part, required part, portionPct⟩

/-- `_entry_rows`: the whole requirement, or the slices of one stage. -/
def entryRows (db : Db) (workspaceId : Uuid) (project : Project) (build : Build)
    (stage : Option BuildStage) : List PickRow :=
  let entries : List (Uuid × ProjectEntry) :=
    (consumableEntries db workspaceId project).foldl (fun d e => Dict.put e.id e d) []
  match stage with
  | none => entries.filterMap fun item =>
      pickRow db workspaceId item.2 (fun part => required item.2 (some part) build.quantity) none
  | some stage =>
    let portions : List (Uuid × Decimal) := (stageLines db workspaceId [stage.id]).foldl
      (fun d line => Dict.put line.projectEntryId line.portionPct d) []
    (stageAllocation db workspaceId build project stage.id).filterMap fun item =>
      if item.2 ≤ 0 then none
      else (Dict.find item.1 entries).bind fun entry =>
        pickRow db workspaceId entry (fun _ => item.2) (Dict.find item.1 portions)

structure PickLine where
  projectEntryId : Uuid
  partId : Uuid
  partName : String
  unit : String
  attritionPct : Decimal
  portionPct : Option Decimal
  required : Decimal
  onHand : Decimal
  alternatesAvailable : Decimal
  planned : Decimal
  shortBy : Decimal
  isShort : Bool
  locationCount : ℕ
  deriving DecidableEq

def linePayload (row : PickRow) (onHand alternatesAvailable : Decimal) (picks : List BucketPick) :
    PickLine :=
  let planned := (picks.map (·.take)).sum
  let shortBy := max 0 (row.required - planned)
  { projectEntryId := row.entry.id
    partId := row.part.id
    partName := row.part.name
    unit := unitForPart (some row.part)
    attritionPct := row.entry.attritionPct
    portionPct := row.portionPct
    required := row.required
    onHand := onHand
    alternatesAvailable := alternatesAvailable
    planned := planned
    shortBy := shortBy
    isShort := 0 < shortBy
    locationCount := ((picks.map (·.bucket.storageLocationId)).dedup).length }

/-! ### The sheet -/

structure SheetPick where
  projectEntryId : Uuid
  partId : Uuid
  partName : String
  lotId : Option Uuid
  lotName : Option String
  quantity : Decimal
  unit : String
  available : Decimal
  deriving DecidableEq

structure PickStop where
  storageLocationId : Option Uuid
  storageLocationName : String
  picks : List SheetPick
  deriving DecidableEq

structure PickSheet where
  lines : List PickLine
  stops : List PickStop
  shortLines : ℕ
  deriving DecidableEq

/-- `_name_maps`, one look-up each -/
def storageName (db : Db) (workspaceId : Uuid) (id : Option Uuid) : Option String :=
  (belongs StorageLocation.workspaceId workspaceId (id.bind db.storageLocation)).map (·.name)

def lotName (db : Db) (workspaceId : Uuid) (id : Option Uuid) : Option String :=
  (belongs Lot.workspaceId workspaceId (id.bind db.lot)).bind (·.name)

def poolBucket (db : Db) (workspaceId : Uuid) (b : LocationStock) : PickBucket where
  storageLocationId := b.storageLocationId
  storageLocationName := storageName db workspaceId b.storageLocationId
  lotId := b.lotId
  lotName := lotName db workspaceId b.lotId
  unit := b.unit
  available := b.quantity
  unclaimed := b.quantity

/-- A row with the pool it was served from and its picks. -/
structure ServedRow where
  row : PickRow
  pool : List PickBucket
  picks : List BucketPick

section Sheet

variable (casefold : String → String)

/-- The rows in turn, each drawing on what the rows before it left of its part's pool. -/
def serveRows : List PickRow → List (Uuid × List PickBucket) → List ServedRow
  | [], _ => []
  | row :: rest, pools =>
    let pool := (Dict.find row.part.id pools).getD []
    let (picks, left) := allocatePicks casefold row.required pool
    ⟨row, pool, picks⟩ :: serveRows rest (Dict.put row.part.id left pools)

def sheetPick (row : PickRow) (pick : BucketPick) : SheetPick where
  projectEntryId := row.entry.id
  partId := row.part.id
  partName := row.part.name
  lotId := pick.bucket.lotId
  lotName := pick.bucket.lotName
  quantity := pick.take
  unit := pick.bucket.unit
  available := pick.bucket.available

/-- The picks of a stop in the order of their part's name. -/
def pickStop (db : Db) (workspaceId : Uuid) (item : Option Uuid × List SheetPick) : PickStop where
  storageLocationId := item.1
  storageLocationName := match storageName db workspaceId item.1 with
    | none => unassignedStopName
    | some name => if name = "" then unassignedStopName else name
  picks := item.2.insertionSort fun a b => casefold a.partName ≤ casefold b.partName

/-- One stop for each location, in walking order. -/
def pickStops (db : Db) (workspaceId : Uuid) (served : List ServedRow) : List PickStop :=
  let picks : List (Option Uuid × SheetPick) := served.flatMap fun s =>
    s.picks.map fun pick => (pick.bucket.storageLocationId, sheetPick s.row pick)
  let stopsByLocation := Dict.gather Prod.fst Prod.snd picks
  (stopsByLocation.insertionSort fun a b =>
    sortKeyForStop casefold (storageName db workspaceId a.1) ≤
      sortKeyForStop casefold (storageName db workspaceId b.1)).map
        (pickStop casefold db workspaceId)

def pickList (db : Db) (workspaceId : Uuid) (build : Build) (project : Project)
    (stage : Option BuildStage) : PickSheet :=
  let rows := entryRows db workspaceId project build stage
  let alternates := fun part : Part => candidatePartIds db part
  let byLocation := bulkStockByLocation db workspaceId
    (rows.map (·.part.id) ++ rows.flatMap fun row => alternates row.part) .onHand
  let stockOf := fun partId : Uuid => (Dict.find partId byLocation).getD []
  let poolByPart := rows.foldl
    (fun d row => Dict.put row.part.id ((stockOf row.part.id).map (poolBucket db workspaceId)) d) []
  let served := serveRows casefold
    (rows.insertionSort fun a b => a.entry.orderIndex ≤ b.entry.orderIndex) poolByPart
  let lines := served.map fun s =>
    linePayload s.row (s.pool.map (·.available)).sum
      ((alternates s.row.part).flatMap fun id => (stockOf id).map (·.quantity)).sum s.picks
  { lines := lines
    stops := pickStops casefold db workspaceId served
    shortLines := (lines.filter (·.isShort)).length }

end Sheet

end StockManager
