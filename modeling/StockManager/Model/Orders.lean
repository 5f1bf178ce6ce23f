import StockManager.Model.Stock

/-! # Receiving an order (domain/orders/service.py) -/

namespace StockManager

structure ReceiveLineIn where
  orderEntryId : Uuid
  quantity : ℤ
  storageLocationId : Option Uuid
  lotName : Option String
  serialNumber : Option String
  quantityPos : 0 < quantity

structure ReceiveIn where
  receivedOn : Option Date
  lines : List ReceiveLineIn
  linesNonempty : lines ≠ []

/-- `text or other`: an empty text gives way as a missing one does. -/
def textOr (text other : Option String) : Option String :=
  match text with
  | none => other
  | some s => if s = "" then other else some s

def orderStatus (entries : List OrderEntry) : OrderStatus :=
  let total : Decimal := (entries.map (·.quantityOrdered)).sum
  let received : Decimal := (entries.map (·.quantityReceived)).sum
  if entries = [] then .draft
  else if received = 0 then .opened
  else if received < total then .partlyReceived
  else .received

def orderEntriesOf (db : Db) (workspaceId orderId : Uuid) : List OrderEntry :=
  db.orderEntries.filter fun e => e.workspaceId = workspaceId ∧ e.orderId = orderId

/-- One turn of the receive loop. -/
def receiveLine (ctx : Ctx) (db : Db) (order : Order) (serialTrackingOn : Bool)
    (receivedAt : Timestamp) (line : ReceiveLineIn) : Except Err ((Lot × StockEntry) × Db) := do
  let oe ← Outcome.orRaise
    ((orderEntriesOf db ctx.workspaceId order.id).find? (·.id = line.orderEntryId))
    (.order s!"order entry {uuidStr line.orderEntryId} not in this order")
  let partId ← Outcome.orRaise oe.partId
    (.order "cannot receive an entry without a part — match it first")
  let outstanding := oe.quantityOrdered - oe.quantityReceived
  Outcome.check (line.quantity ≤ outstanding)
    (.order (s!"line over-receives entry {uuidStr oe.id} " ++
      s!"(outstanding {quantityOut outstanding}, want {line.quantity})"))
  let part ← partInWorkspace db ctx.workspaceId partId (.order "part not in workspace")
  Outcome.check (serialTrackingOn && part.serialized → line.quantity = 1)
    (.order s!"serialized part {part.name} must be received one unit per line")
  Outcome.check (serialTrackingOn && part.serialized → isBlank line.serialNumber = false)
    (.order s!"serialized part {part.name} requires a serial_number on the receive line")
  let storage ← destination db ctx.workspaceId line.storageLocationId part.id
    (.order "storage location not in workspace") (.order "storage location is archived")
    (.order "storage location is marked full")
  let currency := textOr oe.currency order.currency
  let lot : Lot :=
    { newLot ctx (ctx.child 0).uuid4 part.id
        (textOr line.lotName (some s!"{order.name}#{oe.orderIndex + 1}")) .purchase line.quantity with
      serialNumber := line.serialNumber
      sourceOrderId := some order.id
      purchaseUnitCost := oe.unitPrice
      purchaseCurrency := currency }
  let db ← db.insertLot lot
  let entry : StockEntry :=
    { newStockEntry ctx (ctx.child 1).uuid4 part.id line.quantity (unitForPart (some part))
        .onHand .receive receivedAt with
      lotId := some lot.id
      storageLocationId := storage.map (·.id)
      unitPrice := oe.unitPrice
      currency := currency
      orderId := some order.id
      orderEntryId := some oe.id }
  let db ← db.insertStockEntry entry
  let db := db.updateOrderEntry oe.id fun e =>
    { e with quantityReceived := e.quantityReceived + line.quantity, updatedBy := ctx.userId }
  return ((lot, entry), db)

def receiveLines (ctx : Ctx) (db : Db) (order : Order) (serialTrackingOn : Bool)
    (receivedAt : Timestamp) : List ReceiveLineIn → Except Err (List (Lot × StockEntry) × Db)
  | [] => .ok ([], db)
  | line :: rest => do
    let (written, db) ← receiveLine (ctx.child 0) db order serialTrackingOn receivedAt line
    let (others, db) ← receiveLines (ctx.child 1) db order serialTrackingOn receivedAt rest
    return (written :: others, db)

/-- The response lists the ids of the created rows. -/
structure ReceiveResult where
  orderId : Uuid
  status : OrderStatus
  createdLots : List Lot
  createdEntries : List StockEntry

/-- `receive`: every line is applied, or none is. -/
def receive (ctx : Ctx) (db : Db) (order : Order) (payload : ReceiveIn) :
    Except Err (ReceiveResult × Db) := do
  Outcome.check (order.status ≠ .cancelled) (.order "order is cancelled")
  let receivedAt := ctx.utcnow
  let serialTrackingOn := (db.workspace ctx.workspaceId).any (·.serialTrackingEnabled)
  let (written, db) ← receiveLines (ctx.child 0) db order serialTrackingOn receivedAt payload.lines
  let status := orderStatus (orderEntriesOf db ctx.workspaceId order.id)
  let receivedOn :=
    if payload.receivedOn.isSome then payload.receivedOn
    else if status = .received ∧ order.receivedOn = none then some receivedAt.date
    else order.receivedOn
  let db := db.updateOrder order.id fun o =>
    { o with status := status, receivedOn := receivedOn, updatedBy := ctx.userId }
  return (⟨order.id, status, written.map Prod.fst, written.map Prod.snd⟩, db)

end StockManager
