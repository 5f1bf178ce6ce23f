import StockManager.Model.Constraints

/-! # Stock operations (domain/stock/service.py)

`add_stock`, `remove_stock`, `move_stock`, `move_quantity` and `adjust_stock`,
with the checks in the order the code makes them. A call returns the rows it
wrote and the database, or raises; the caller's transaction then rolls back. -/

namespace StockManager

/-! ### Request bodies (domain/stock/schemas.py) -/

structure PriceInput where
  mode : PriceMode
  unitPrice : Option Decimal
  totalPrice : Option Decimal
  currency : Option String

structure LotInput where
  name : Option String
  comments : Option String
  expirationDate : Option String
  serialNumber : Option String

structure AddStockIn where
  partId : Uuid
  quantity : ℤ
  storageLocationId : Option Uuid
  price : Option PriceInput
  lot : Option LotInput
  comments : Option String
  bagSignature : Option String
  quantityPos : 0 < quantity

structure RemoveStockIn where
  partId : Uuid
  quantity : ℤ
  storageLocationId : Option Uuid
  lotId : Option Uuid
  comments : Option String
  quantityPos : 0 < quantity

structure MoveStockIn where
  partId : Uuid
  sourceStorageLocationId : Option Uuid
  sourceLotId : Option Uuid
  destinationStorageLocationId : Uuid
  quantity : ℤ
  splitLot : Bool
  comments : Option String
  quantityPos : 0 < quantity

structure AdjustStockIn where
  partId : Uuid
  storageLocationId : Option Uuid
  lotId : Option Uuid
  actualQuantity : ℤ
  comments : Option String
  actualNonneg : 0 ≤ actualQuantity

/-! ### Shared steps -/

/-- A row with the columns every writer sets; the others are NULL. -/
def newStockEntry (ctx : Ctx) (id : Uuid) (partId : Option Uuid) (quantityDelta : Decimal)
    (unit : String) (status : StockStatus) (operationType : OperationType)
    (occurredAt : Timestamp) : StockEntry where
  id := id
  workspaceId := ctx.workspaceId
  partId := partId
  lotId := none
  storageLocationId := none
  quantityDelta := quantityDelta
  unit := unit
  status := status
  unitPrice := none
  currency := none
  operationType := operationType
  relatedEntryId := none
  orderId := none
  orderEntryId := none
  projectId := none
  buildId := none
  buildStageId := none
  comments := none
  bagSignature := none
  occurredAt := occurredAt
  createdBy := ctx.userId

def newLot (ctx : Ctx) (id partId : Uuid) (name : Option String) (sourceType : LotSource)
    (purchaseQuantity : Decimal) : Lot where
  id := id
  workspaceId := ctx.workspaceId
  partId := some partId
  name := name
  serialNumber := none
  parentLotId := none
  description := none
  comments := none
  expirationDate := none
  sourceType := sourceType
  sourceOrderId := none
  sourceBuildId := none
  purchaseQuantity := some purchaseQuantity
  purchaseUnitCost := none
  purchaseCurrency := none
  createdBy := ctx.userId
  updatedBy := ctx.userId

def partInWorkspace (db : Db) (workspaceId partId : Uuid) (notFound : Err) : Except Err Part :=
  Outcome.orRaise (belongs Part.workspaceId workspaceId (db.part partId)) notFound

/-- An optional storage id must name a location of the workspace. -/
def checkStorageRef (db : Db) (workspaceId : Uuid) (id : Option Uuid) (notFound : Err) :
    Except Err Unit :=
  Outcome.check (∀ i ∈ id,
    (belongs StorageLocation.workspaceId workspaceId (db.storageLocation i)).isSome) notFound

/-- An optional lot id must name a lot of the workspace. -/
def checkLotRef (db : Db) (workspaceId : Uuid) (id : Option Uuid) (notFound : Err) :
    Except Err Unit :=
  Outcome.check (∀ i ∈ id, (belongs Lot.workspaceId workspaceId (db.lot i)).isSome) notFound

/-! ### add_stock -/

/-- Unit price and currency of the lot an addition creates. -/
def addStockPrice (payload : AddStockIn) : Option Decimal × Option String :=
  match payload.price with
  | none => (none, none)
  | some price =>
    match price.mode with
    | .none => (none, none)
    | .perComponent => (price.unitPrice, price.currency)
    | .entireLot => (price.totalPrice.map (· / payload.quantity), price.currency)

/-- An empty text is no date; any other must parse. -/
def addStockExpiration (payload : AddStockIn) : Except Err (Option Date) :=
  match payload.lot.bind (·.expirationDate) with
  | none => .ok none
  | some text =>
    if text = "" then .ok none
    else (Outcome.orRaise (fromIsoFormat text) (.stock "invalid expiration_date")).map some

/-- The lot of an addition: one is created when a lot or a price is given. -/
def addStockLot (ctx : Ctx) (db : Db) (payload : AddStockIn) (part : Part) :
    Except Err (Option Lot × Db) := do
  let unitPrice := (addStockPrice payload).1
  if payload.lot.isSome ∨ unitPrice.isSome then
    let expirationDate ← addStockExpiration payload
    let lot : Lot :=
      { newLot ctx (ctx.child 0).uuid4 part.id (payload.lot.bind (·.name)) .manual payload.quantity with
        comments := payload.lot.bind (·.comments)
        expirationDate := expirationDate
        serialNumber := payload.lot.bind (·.serialNumber)
        purchaseUnitCost := unitPrice
        purchaseCurrency := (addStockPrice payload).2 }
    let db ← db.insertLot lot
    return (some lot, db)
  else
    return (none, db)

def addStock (ctx : Ctx) (db : Db) (payload : AddStockIn) : Except Err (StockEntry × Db) := do
  let part ← partInWorkspace db ctx.workspaceId payload.partId (.stock "part not found")
  let storage ← destination db ctx.workspaceId payload.storageLocationId payload.partId
    (.stock "storage location not found") (.stock "storage location is archived")
    (.stock "storage location is marked full")
  Outcome.check (∀ id ∈ part.defaultStorageLocationId, part.defaultStorageMandatory = true →
      storage.map (·.id) = some id)
    (.stock "part requires default storage location")
  let serialTracking := (db.workspace ctx.workspaceId).any (·.serialTrackingEnabled)
  Outcome.check (serialTracking && part.serialized → payload.quantity = 1)
    (.stock "serialized parts must be added one at a time (quantity=1)")
  Outcome.check
    (serialTracking && part.serialized → isBlank (payload.lot.bind (·.serialNumber)) = false)
    (.stock "serialized parts require lot.serial_number")
  let (lot, db) ← addStockLot ctx db payload part
  let entry : StockEntry :=
    { newStockEntry ctx (ctx.child 1).uuid4 part.id payload.quantity (unitForPart (some part))
        .onHand .add ctx.utcnow with
      lotId := lot.map (·.id)
      storageLocationId := storage.map (·.id)
      unitPrice := (addStockPrice payload).1
      currency := (addStockPrice payload).2
      comments := payload.comments
      bagSignature := payload.bagSignature }
  let db ← db.insertStockEntry entry
  return (entry, db)

/-! ### remove_stock -/

def removeStock (ctx : Ctx) (db : Db) (payload : RemoveStockIn) :
    Except Err (StockEntry × Db) := do
  let part ← partInWorkspace db ctx.workspaceId payload.partId (.stock "part not found")
  checkStorageRef db ctx.workspaceId payload.storageLocationId
    (.stock "storage location not found")
  checkLotRef db ctx.workspaceId payload.lotId (.stock "lot not found")
  let available := currentQuantity db ctx.workspaceId part.id payload.storageLocationId
    payload.lotId .onHand true
  Outcome.check (payload.quantity ≤ available)
    (.stock s!"insufficient stock (have {quantityOut available}, want {payload.quantity})")
  let entry : StockEntry :=
    { newStockEntry ctx (ctx.child 0).uuid4 part.id (-payload.quantity) (unitForPart (some part))
        .onHand .remove ctx.utcnow with
      lotId := payload.lotId
      storageLocationId := payload.storageLocationId
      comments := payload.comments }
  let db ← db.insertStockEntry entry
  return (entry, db)

/-! ### Moves -/

def prepareMove (ctx : Ctx) (db : Db) (partId : Uuid) (quantity : Decimal)
    (sourceStorageLocationId sourceLotId : Option Uuid) (destinationStorageLocationId : Uuid) :
    Except Err (Part × StorageLocation) := do
  let part ← partInWorkspace db ctx.workspaceId partId (.stock "part not found")
  let dest ← openLocation db ctx.workspaceId destinationStorageLocationId
    (.stock "destination not found") (.stock "destination is archived")
    (.stock "destination is full")
  checkStorageRef db ctx.workspaceId sourceStorageLocationId (.stock "source storage not found")
  checkLotRef db ctx.workspaceId sourceLotId (.stock "source lot not found")
  let available := currentQuantity db ctx.workspaceId partId sourceStorageLocationId sourceLotId
    .onHand true
  Outcome.check (quantity ≤ available)
    (.stock ("insufficient stock at source " ++
      s!"(have {quantityOut available}, want {quantityOut quantity})"))
  enforceStorageConstraints db ctx.workspaceId dest partId
  return (part, dest)

/-- `_write_move_pair`: the two rows point at each other, so the first is
inserted with no pointer and updated once the second exists. -/
def writeMovePair (ctx : Ctx) (db : Db) (part : Part) (quantity : Decimal)
    (sourceStorageLocationId sourceLotId : Option Uuid) (destStorageLocationId : Uuid)
    (destLotId : Option Uuid) (comments : Option String) (buildId buildStageId : Option Uuid) :
    Except Err ((StockEntry × StockEntry) × Db) := do
  let outId := (ctx.child 0).uuid4
  let inId := (ctx.child 1).uuid4
  let unit := unitForPart (some part)
  let outEntry : StockEntry :=
    { newStockEntry ctx outId part.id (-quantity) unit .onHand .moveOut ctx.utcnow with
      lotId := sourceLotId
      storageLocationId := sourceStorageLocationId
      buildId := buildId
      buildStageId := buildStageId
      comments := comments }
  let db ← db.insertStockEntry outEntry
  let inEntry : StockEntry :=
    { newStockEntry ctx inId part.id quantity unit .onHand .moveIn ctx.utcnow with
      lotId := destLotId
      storageLocationId := some destStorageLocationId
      relatedEntryId := some outId
      buildId := buildId
      buildStageId := buildStageId
      comments := comments }
  let db ← db.insertStockEntry inEntry
  let db := db.updateStockEntry outId fun e => { e with relatedEntryId := some inId }
  return (({ outEntry with relatedEntryId := some inId }, inEntry), db)

def moveQuantity (ctx : Ctx) (db : Db) (partId : Uuid) (quantity : Decimal)
    (sourceStorageLocationId sourceLotId : Option Uuid) (destinationStorageLocationId : Uuid)
    (comments : Option String) (buildId buildStageId : Option Uuid) :
    Except Err ((StockEntry × StockEntry) × Db) := do
  let (part, _) ← prepareMove ctx db partId quantity sourceStorageLocationId sourceLotId
    destinationStorageLocationId
  writeMovePair ctx db part quantity sourceStorageLocationId sourceLotId
    destinationStorageLocationId sourceLotId comments buildId buildStageId

/-- The child lot a split move creates. -/
def splitLot (ctx : Ctx) (payload : MoveStockIn) (srcLot : Lot) : Lot :=
  let name := match srcLot.name with
    | none => "lot"
    | some text => if text = "" then "lot" else text
  { newLot ctx (ctx.child 0).uuid4 payload.partId (some s!"{name}-split") .split payload.quantity with
    parentLotId := some srcLot.id
    description := srcLot.description
    comments := some s!"split from {uuidStr srcLot.id}"
    expirationDate := srcLot.expirationDate
    purchaseUnitCost := srcLot.purchaseUnitCost
    purchaseCurrency := srcLot.purchaseCurrency }

def moveStock (ctx : Ctx) (db : Db) (payload : MoveStockIn) :
    Except Err ((StockEntry × StockEntry) × Db) := do
  let quantity : Decimal := payload.quantity
  let (part, dest) ← prepareMove ctx db payload.partId quantity payload.sourceStorageLocationId
    payload.sourceLotId payload.destinationStorageLocationId
  match payload.splitLot, payload.sourceLotId with
  | true, some sourceLotId =>
    let srcLot ← Outcome.orRaise (belongs Lot.workspaceId ctx.workspaceId (db.lot sourceLotId))
      (.stock "source lot not found")
    let lot := splitLot ctx payload srcLot
    let db ← db.insertLot lot
    writeMovePair (ctx.child 1) db part quantity payload.sourceStorageLocationId
      (some sourceLotId) dest.id (some lot.id) payload.comments none none
  | _, sourceLotId =>
    writeMovePair (ctx.child 1) db part quantity payload.sourceStorageLocationId sourceLotId
      dest.id sourceLotId payload.comments none none

/-! ### adjust_stock -/

/-- Writes the difference between the counted and the booked quantity, and
nothing when there is none. -/
def adjustStock (ctx : Ctx) (db : Db) (payload : AdjustStockIn) :
    Except Err (Option StockEntry × Db) := do
  let part ← partInWorkspace db ctx.workspaceId payload.partId (.stock "part not found")
  checkStorageRef db ctx.workspaceId payload.storageLocationId
    (.stock "storage location not found")
  checkLotRef db ctx.workspaceId payload.lotId (.stock "lot not found")
  let current := currentQuantity db ctx.workspaceId part.id payload.storageLocationId
    payload.lotId .onHand true
  let delta := payload.actualQuantity - current
  if delta = 0 then
    return (none, db)
  else
    let entry : StockEntry :=
      { newStockEntry ctx (ctx.child 0).uuid4 part.id delta (unitForPart (some part)) .onHand
          .adjust ctx.utcnow with
        lotId := payload.lotId
        storageLocationId := payload.storageLocationId
        comments := payload.comments }
    let db ← db.insertStockEntry entry
    return (some entry, db)

end StockManager
