import StockManager.Library.Dict
import StockManager.Model.Tables

/-! # Reading the ledger (domain/stock/service.py)

No balance is stored: every read re-sums `quantity_delta`. -/

namespace StockManager

/-- The key the balance is kept by; `none` is a bucket of its own. -/
structure Bucket where
  workspaceId : Uuid
  partId : Option Uuid
  lotId : Option Uuid
  storageLocationId : Option Uuid
  deriving DecidableEq

def StockEntry.bucket (e : StockEntry) : Bucket :=
  ⟨e.workspaceId, e.partId, e.lotId, e.storageLocationId⟩

/-- On-hand stock of exactly one bucket. -/
def balance (rows : List StockEntry) (b : Bucket) : Decimal :=
  tally (fun e => e.status = .onHand ∧ e.bucket = b) (·.quantityDelta) rows

def defaultUnit : String := "pcs"

def unitForPart : Option Part → String
  | none => defaultUnit
  | some part => if part.unitOfMeasure = "" then defaultUnit else part.unitOfMeasure

/-- With `bucketMatch` a `none` names the NULL bucket, without it a `none` does
not filter. -/
def currentQuantity (db : Db) (workspaceId partId : Uuid) (storageLocationId lotId : Option Uuid)
    (status : StockStatus) (bucketMatch : Bool) : Decimal :=
  tally (fun e => e.workspaceId = workspaceId ∧ e.partId = some partId ∧ e.status = status ∧
      if bucketMatch then e.storageLocationId = storageLocationId ∧ e.lotId = lotId
      else (storageLocationId = none ∨ e.storageLocationId = storageLocationId) ∧
        (lotId = none ∨ e.lotId = lotId))
    (·.quantityDelta) db.stockEntries

def reservedQuantity (db : Db) (workspaceId partId : Uuid) : Decimal :=
  tally (fun e => e.workspaceId = workspaceId ∧ e.partId = some partId ∧ e.status = .reserved)
    (·.quantityDelta) db.stockEntries

structure PartStockRow where
  storageLocationId : Option Uuid
  lotId : Option Uuid
  quantity : Decimal
  deriving DecidableEq

/-- Per (storage, lot) breakdown of a part; rows that net to zero are dropped. -/
def stockSummaryForPart (db : Db) (workspaceId partId : Uuid) (status : StockStatus) :
    List PartStockRow :=
  let rows := db.stockEntries.filter fun e =>
    e.workspaceId = workspaceId ∧ e.partId = some partId ∧ e.status = status
  (Dict.totals (fun e => (e.storageLocationId, e.lotId)) (·.quantityDelta) rows).filterMap
    fun item => if item.2 ≠ 0 then some ⟨item.1.1, item.1.2, item.2⟩ else none

structure StorageStockRow where
  partId : Option Uuid
  lotId : Option Uuid
  quantity : Decimal
  deriving DecidableEq

/-- Per (part, lot) breakdown of a location; rows that net to zero are dropped. -/
def stockForStorage (db : Db) (workspaceId storageLocationId : Uuid) (status : StockStatus) :
    List StorageStockRow :=
  let rows := db.stockEntries.filter fun e =>
    e.workspaceId = workspaceId ∧ e.storageLocationId = some storageLocationId ∧ e.status = status
  (Dict.totals (fun e => (e.partId, e.lotId)) (·.quantityDelta) rows).filterMap
    fun item => if item.2 ≠ 0 then some ⟨item.1.1, item.1.2, item.2⟩ else none

/-! ### Balances -/

@[simp] theorem balance_nil (b : Bucket) : balance [] b = 0 := rfl

@[simp] theorem balance_append (xs ys : List StockEntry) (b : Bucket) :
    balance (xs ++ ys) b = balance xs b + balance ys b := Tally.tally_append ..

theorem balance_cons (e : StockEntry) (rows : List StockEntry) (b : Bucket) :
    balance (e :: rows) b =
      (if e.status = .onHand ∧ e.bucket = b then e.quantityDelta else 0) + balance rows b :=
  Tally.tally_cons ..

theorem balance_singleton (e : StockEntry) (b : Bucket) :
    balance [e] b = if e.status = .onHand ∧ e.bucket = b then e.quantityDelta else 0 :=
  Tally.tally_singleton ..

theorem currentQuantity_bucket (db : Db) (workspaceId partId : Uuid)
    (storageLocationId lotId : Option Uuid) :
    currentQuantity db workspaceId partId storageLocationId lotId .onHand true =
      balance db.stockEntries ⟨workspaceId, some partId, lotId, storageLocationId⟩ := by
  apply Tally.tally_congr
  · intro e _
    simp only [StockEntry.bucket, Bucket.mk.injEq, if_true]
    tauto
  · intro e _ _
    rfl

theorem mem_stockForStorage {db : Db} {workspaceId storageLocationId : Uuid}
    {row : StorageStockRow} :
    row ∈ stockForStorage db workspaceId storageLocationId .onHand ↔
      row.quantity ≠ 0 ∧ row.quantity = balance db.stockEntries
        ⟨workspaceId, row.partId, row.lotId, some storageLocationId⟩ := by
  have hsum : ∀ k : Option Uuid × Option Uuid,
      tally (fun e : StockEntry => (e.partId, e.lotId) = k) (·.quantityDelta)
          (db.stockEntries.filter fun e => e.workspaceId = workspaceId ∧
            e.storageLocationId = some storageLocationId ∧ e.status = .onHand) =
        balance db.stockEntries ⟨workspaceId, k.1, k.2, some storageLocationId⟩ := by
    intro k
    unfold tally balance tally
    rw [List.filter_filter]
    congr 2
    apply List.filter_congr
    intro e _
    simp only [StockEntry.bucket, Bucket.mk.injEq, Prod.ext_iff, ← Bool.decide_and,
      decide_eq_decide]
    tauto
  simp only [stockForStorage, List.mem_filterMap]
  constructor
  · rintro ⟨⟨k, v⟩, hmem, hrow⟩
    rw [Dict.mem_totals] at hmem
    split at hrow
    next hne =>
      obtain rfl := Option.some.inj hrow
      exact ⟨hne, hmem.2.trans (hsum k)⟩
    next => cases hrow
  · rintro ⟨hne, hq⟩
    refine ⟨((row.partId, row.lotId), row.quantity), ?_, by simp [hne]⟩
    rw [Dict.mem_totals, hsum]
    refine ⟨?_, hq⟩
    by_contra hnone
    push Not at hnone
    apply hne
    rw [hq, ← hsum (row.partId, row.lotId)]
    exact Tally.tally_eq_zero _ _ hnone

end StockManager

/-! ## Storage-location constraints (domain/stock/service.py)

`enforce_storage_constraints` is what every producer calls on its destination;
`validate_storage_constraint_flag_update` guards switching a flag on. -/

namespace StockManager

/-- `_belongs(obj, workspace_id)`: the row, when it exists in the workspace. -/
def belongs {α : Type} (workspaceOf : α → Uuid) (workspaceId : Uuid) (obj : Option α) : Option α :=
  obj.filter fun o => workspaceOf o = workspaceId

theorem belongs_eq_some {α : Type} {workspaceOf : α → Uuid} {workspaceId : Uuid} {obj : Option α}
    {a : α} : belongs workspaceOf workspaceId obj = some a ↔
      obj = some a ∧ workspaceOf a = workspaceId := by
  simp [belongs, Option.filter_eq_some_iff]

def enforceStorageConstraints (db : Db) (workspaceId : Uuid) (storage : StorageLocation)
    (partId : Uuid) : Except Err Unit := do
  -- `db.refresh(storage)`
  let storage := (db.storageLocation storage.id).getD storage
  let current := stockForStorage db workspaceId storage.id .onHand
  Outcome.check (storage.singlePartOnly = true → ∀ row ∈ current, row.partId = some partId)
    (.stockConflict "destination is single-part-only and already holds a different part"
      .singlePartOnly storage.id)
  -- Any row of the part at the location with a positive delta counts, also a reserved one.
  Outcome.check (storage.existingPartsOnly = true → ∃ e ∈ db.stockEntries,
      e.workspaceId = workspaceId ∧ e.storageLocationId = some storage.id ∧
        e.partId = some partId ∧ 0 < e.quantityDelta)
    (.stockConflict ("destination only accepts previously-stocked parts and this part has " ++
      "no prior stock here") .existingPartsOnly storage.id)

def validateStorageConstraintFlagUpdate (db : Db) (workspaceId : Uuid) (storage : StorageLocation)
    (requestedSinglePartOnly requestedExistingPartsOnly : Option Bool) : Except Err Unit := do
  let enableSingle := requestedSinglePartOnly = some true ∧ storage.singlePartOnly = false
  let enableExisting := requestedExistingPartsOnly = some true ∧ storage.existingPartsOnly = false
  let currentRows := stockForStorage db workspaceId storage.id .onHand
  let currentPartIds :=
    ((currentRows.filter fun row => 0 < row.quantity).map (·.partId)).dedup
  Outcome.check (enableSingle → currentPartIds.length ≤ 1)
    (.stockConflict "storage cannot be marked single-part-only while it holds multiple parts"
      .singlePartOnly storage.id)
  -- A NULL part id is `IN` no set, so it never counts as stocked before.
  Outcome.check (enableExisting → ∀ partId ∈ currentPartIds, partId.isSome ∧
      ∃ e ∈ db.stockEntries, e.workspaceId = workspaceId ∧
        e.storageLocationId = some storage.id ∧ e.partId = partId ∧ 0 < e.quantityDelta)
    (.stockConflict ("storage cannot be marked existing-parts-only while it holds a part " ++
      "with no prior positive entry") .existingPartsOnly storage.id)

/-- The look-up every producer starts with: the location must exist in the
workspace, be active and not be full. The caller chooses the errors. -/
def openLocation (db : Db) (workspaceId id : Uuid) (notFound archived full : Err) :
    Except Err StorageLocation := do
  let storage ← Outcome.orRaise
    (belongs StorageLocation.workspaceId workspaceId (db.storageLocation id)) notFound
  Outcome.check (storage.archivedAt = none) archived
  Outcome.check (storage.isFull = false) full
  return storage

/-- The optional destination of a producer: an open location that accepts the part. -/
def destination (db : Db) (workspaceId : Uuid) (id : Option Uuid) (partId : Uuid)
    (notFound archived full : Err) : Except Err (Option StorageLocation) :=
  match id with
  | none => .ok none
  | some id => do
    let storage ← openLocation db workspaceId id notFound archived full
    enforceStorageConstraints db workspaceId storage partId
    return some storage

theorem openLocation_ok {db : Db} {workspaceId id : Uuid} {notFound archived full : Err}
    {storage : StorageLocation} :
    openLocation db workspaceId id notFound archived full = .ok storage ↔
      db.storageLocation id = some storage ∧ storage.workspaceId = workspaceId ∧
        storage.archivedAt = none ∧ storage.isFull = false := by
  simp only [openLocation, Outcome.bind_ok, Outcome.orRaise_ok, Outcome.check_ok, belongs_eq_some]
  constructor
  · rintro ⟨s, ⟨hs, hws⟩, _, harch, _, hfull, hret⟩
    cases hret
    exact ⟨hs, hws, harch, hfull⟩
  · rintro ⟨hs, hws, harch, hfull⟩
    exact ⟨storage, ⟨hs, hws⟩, (), harch, (), hfull, rfl⟩

theorem storageLocation_id {db : Db} {id : Uuid} {storage : StorageLocation}
    (h : db.storageLocation id = some storage) : storage.id = id := by
  simpa using List.find?_some h

/-- A producer may write to the location `id` for the part. -/
structure Admits (db : Db) (workspaceId : Uuid) (id partId : Uuid) : Prop where
  location : ∃ storage, db.storageLocation id = some storage ∧
    storage.workspaceId = workspaceId ∧ storage.archivedAt = none ∧ storage.isFull = false
  otherParts : ∀ storage, db.storageLocation id = some storage → storage.singlePartOnly = true →
    ∀ p l, p ≠ some partId → balance db.stockEntries ⟨workspaceId, p, l, some id⟩ = 0
  priorStock : ∀ storage, db.storageLocation id = some storage →
    storage.existingPartsOnly = true → ∃ e ∈ db.stockEntries, e.workspaceId = workspaceId ∧
      e.storageLocationId = some id ∧ e.partId = some partId ∧ 0 < e.quantityDelta

theorem admits_of_enforce {db : Db} {workspaceId id partId : Uuid} {storage : StorageLocation}
    {u : Unit} (hs : db.storageLocation id = some storage) (hws : storage.workspaceId = workspaceId)
    (harch : storage.archivedAt = none) (hfull : storage.isFull = false)
    (h : enforceStorageConstraints db workspaceId storage partId = .ok u) :
    Admits db workspaceId id partId := by
  have hid : storage.id = id := storageLocation_id hs
  simp only [enforceStorageConstraints, Outcome.bind_ok, Outcome.check_ok, hid, hs,
    Option.getD_some] at h
  obtain ⟨_, hsingle, hexisting⟩ := h
  refine ⟨⟨storage, hs, hws, harch, hfull⟩, ?_, ?_⟩
  · intro s hs' hflag p l hne
    obtain rfl : storage = s := Option.some.inj (hs.symm.trans hs')
    by_contra hbal
    have hmem : (⟨p, l, balance db.stockEntries ⟨workspaceId, p, l, some id⟩⟩ : StorageStockRow) ∈
        stockForStorage db workspaceId id .onHand := mem_stockForStorage.mpr ⟨hbal, rfl⟩
    exact hne (hsingle hflag _ hmem)
  · intro s hs' hflag
    obtain rfl : storage = s := Option.some.inj (hs.symm.trans hs')
    exact hexisting hflag

theorem destination_ok {db : Db} {workspaceId partId : Uuid} {id : Option Uuid}
    {notFound archived full : Err} {storage : Option StorageLocation}
    (h : destination db workspaceId id partId notFound archived full = .ok storage) :
    storage.map (·.id) = id ∧ ∀ i ∈ id, Admits db workspaceId i partId := by
  cases id with
  | none =>
    cases h
    exact ⟨rfl, fun i hi => by cases hi⟩
  | some id =>
    simp only [destination, Outcome.bind_ok, Outcome.pure_ok, openLocation_ok] at h
    obtain ⟨s, ⟨hs, hws, harch, hfull⟩, _, hcons, rfl⟩ := h
    have hid : s.id = id := storageLocation_id hs
    refine ⟨by simp [hid], ?_⟩
    rintro i hi
    obtain rfl : id = i := by simpa using hi
    exact admits_of_enforce hs hws harch hfull hcons

end StockManager
