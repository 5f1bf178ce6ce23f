import StockManager.Model.DbSessions

/-! # Writing orders and their entries (api/routes/orders.py)

`partArchived` reads the `archived_at` column of a part, which only these
routes look at. -/

namespace StockManager

/-! ### Request bodies (domain/orders/schemas.py) -/

structure OrderEntryIn where
  partId : Option Uuid
  quantityOrdered : ℤ
  unitPrice : Option Decimal
  currency : Option String
  quantityPos : 1 ≤ quantityOrdered

structure OrderEntryPatch where
  partId : Patch Uuid
  quantityOrdered : Patch { q : ℤ // 1 ≤ q }
  unitPrice : Patch Decimal
  currency : Patch String

structure OrderCreateIn where
  name : String
  currency : Option String
  entries : List OrderEntryIn
  nameLength : 1 ≤ name.length ∧ name.length ≤ 200

def Db.insertOrder (db : Db) (row : Order) : Except Err Db := do
  Outcome.check (∀ r ∈ db.orders, r.id ≠ row.id) (.integrity "orders_pkey")
  return { db with orders := db.orders ++ [row] }

def Db.insertOrderEntry (db : Db) (row : OrderEntry) : Except Err Db := do
  Outcome.check (∀ r ∈ db.orderEntries, r.id ≠ row.id) (.integrity "order_entries_pkey")
  return { db with orderEntries := db.orderEntries ++ [row] }

def assertPartLive (partArchived : Uuid → Bool) (ctx : Ctx) (db : Db) :
    Option Uuid → Except Err Unit
  | none => .ok ()
  | some partId => do
    let part ← partInWorkspace db ctx.workspaceId partId
      (.http 404 "resource.not_found" "part not found" (.resource "part"))
    Outcome.check (partArchived part.id = false)
      (.http 404 "part.not_found" "part not found" .nothing)

def newOrderEntry (ctx : Ctx) (id orderId : Uuid) (payload : OrderEntryIn) (orderIndex : ℤ) :
    OrderEntry where
  id := id
  workspaceId := ctx.workspaceId
  orderId := orderId
  partId := payload.partId
  quantityOrdered := payload.quantityOrdered
  quantityReceived := 0
  unitPrice := payload.unitPrice
  currency := payload.currency
  orderIndex := orderIndex
  updatedBy := ctx.userId

/-- The entry loop of `create_order`. -/
def createEntries (partArchived : Uuid → Bool) (ctx : Ctx) (db : Db) (orderId : Uuid) (idx : ℕ) :
    List OrderEntryIn → Except Err Db
  | [] => .ok db
  | payload :: rest => do
    assertPartLive partArchived ctx db payload.partId
    let db ← db.insertOrderEntry
      (newOrderEntry ctx (ctx.child 0).uuid4 orderId payload idx)
    createEntries partArchived (ctx.child 1) db orderId (idx + 1) rest

def newOrder (ctx : Ctx) (payload : OrderCreateIn) : Order where
  id := ctx.uuid4
  workspaceId := ctx.workspaceId
  name := payload.name
  status := if payload.entries = [] then .draft else .opened
  currency := payload.currency
  receivedOn := none
  updatedBy := ctx.userId

def createOrder (partArchived : Uuid → Bool) (ctx : Ctx) (db : Db) (payload : OrderCreateIn) :
    Except Err (Order × Db) := do
  let order := newOrder ctx payload
  let db ← db.insertOrder order
  let db ← createEntries partArchived (ctx.child 0) db order.id 0 payload.entries
  return (order, db)

/-- `(… .limit(1)).scalar() or -1`, plus one: an index of 0 counts as none. -/
def nextOrderIndex (entries : List OrderEntry) : ℤ :=
  match (entries.map (·.orderIndex)).max? with
  | some top => (if top = 0 then -1 else top) + 1
  | none => 0

def addEntry (partArchived : Uuid → Bool) (ctx : Ctx) (db : Db) (orderId : Uuid)
    (payload : OrderEntryIn) : Except Err (OrderEntry × Db) := do
  let order ← getOrder ctx db orderId
  assertPartLive partArchived ctx db payload.partId
  let nextIdx := nextOrderIndex (orderEntriesOf db ctx.workspaceId order.id)
  let entry := newOrderEntry ctx ctx.uuid4 order.id payload nextIdx
  let db ← db.insertOrderEntry entry
  let db := if order.status = .draft then
    db.updateOrder order.id fun o => { o with status := .opened } else db
  return (entry, db)

/-- `assert_child_in_parent(db, OrderEntry, …)` -/
def getEntry (db : Db) (order : Order) (entryId : Uuid) : Except Err OrderEntry :=
  Outcome.orRaise (db.orderEntries.find? fun e =>
      e.id = entryId ∧ e.workspaceId = order.workspaceId ∧ e.orderId = order.id)
    (.http 404 "resource.not_found" "entry not found" (.resource "entry"))

def OrderEntryPatch.ordered (payload : OrderEntryPatch) (old : Decimal) : Except Err Decimal :=
  match payload.quantityOrdered with
  | .unset => .ok old
  | .null => .error (.integrity "null value in column quantity_ordered")
  | .set q => .ok q.val

/-- The row after the `setattr` loop of `patch_entry`. -/
def patchedEntry (ctx : Ctx) (e : OrderEntry) (payload : OrderEntryPatch) :
    Except Err OrderEntry := do
  let quantityOrdered ← payload.ordered e.quantityOrdered
  return { e with
    partId := payload.partId.nullable e.partId
    quantityOrdered := quantityOrdered
    unitPrice := payload.unitPrice.nullable e.unitPrice
    currency := payload.currency.nullable e.currency
    updatedBy := ctx.userId }

def patchEntry (partArchived : Uuid → Bool) (ctx : Ctx) (db : Db) (orderId entryId : Uuid)
    (payload : OrderEntryPatch) : Except Err (OrderEntry × Db) := do
  let order ← getOrder ctx db orderId
  let e ← getEntry db order entryId
  assertPartLive partArchived ctx db payload.partId.get
  Outcome.check (∀ q ∈ payload.quantityOrdered.get, e.quantityReceived ≤ (q.val : Decimal))
    (.http 400 "order.quantity_ordered_below_received"
      "quantity_ordered cannot be less than already-received quantity" .nothing)
  let row ← patchedEntry ctx e payload
  return (row, db.updateOrderEntry e.id fun _ => row)

/-- Deleting an entry clears the pointers to it (`ON DELETE SET NULL`). -/
def Db.deleteOrderEntry (db : Db) (id : Uuid) : Db :=
  { db with
    orderEntries := db.orderEntries.filter fun e => e.id ≠ id
    stockEntries := db.stockEntries.map fun r =>
      if r.orderEntryId = some id then { r with orderEntryId := none } else r }

def delEntry (ctx : Ctx) (db : Db) (orderId entryId : Uuid) : Except Err Db := do
  let order ← getOrder ctx db orderId
  let e ← getEntry db order entryId
  Outcome.check (e.quantityReceived ≤ 0)
    (.http 400 "order.delete_received_entry" "cannot delete entry with received stock" .nothing)
  return db.deleteOrderEntry e.id

/-! ### Requests on orders -/

inductive OrderRequest
  | createOrder (payload : OrderCreateIn)
  | addEntry (orderId : Uuid) (payload : OrderEntryIn)
  | patchEntry (orderId entryId : Uuid) (payload : OrderEntryPatch)
  | delEntry (orderId entryId : Uuid)
  | receive (orderId : Uuid) (payload : ReceiveIn)

structure OrderCall where
  ctx : Ctx
  partArchived : Uuid → Bool
  request : OrderRequest

def execOrder (call : OrderCall) (db : Db) : Except Err Db :=
  match call.request with
  | .createOrder payload => (createOrder call.partArchived call.ctx db payload).map Prod.snd
  | .addEntry orderId payload => (addEntry call.partArchived call.ctx db orderId payload).map Prod.snd
  | .patchEntry orderId entryId payload =>
    (patchEntry call.partArchived call.ctx db orderId entryId payload).map Prod.snd
  | .delEntry orderId entryId => delEntry call.ctx db orderId entryId
  | .receive orderId payload => (receiveOrder call.ctx db orderId payload).map Prod.snd

end StockManager

/-! ## Requests on orders as transactions

`receive` (domain/orders/service.py) and the entry routes (api/routes/orders.py)
statement by statement: what each reads, the locks it waits for and what it writes. -/

namespace StockManager

open Transactions

/-! ### receive -/

def receivedLot (ctx : Ctx) (order : Order) (oe : OrderEntry) (part : Part)
    (line : ReceiveLineIn) : Lot :=
  { newLot ctx (ctx.child 0).uuid4 part.id
      (textOr line.lotName (some s!"{order.name}#{oe.orderIndex + 1}")) .purchase line.quantity with
    serialNumber := line.serialNumber
    sourceOrderId := some order.id
    purchaseUnitCost := oe.unitPrice
    purchaseCurrency := textOr oe.currency order.currency }

def receivedStock (ctx : Ctx) (order : Order) (oe : OrderEntry) (part : Part) (lotId : Uuid)
    (storage : Option StorageLocation) (receivedAt : Timestamp) (line : ReceiveLineIn) :
    StockEntry :=
  { newStockEntry ctx (ctx.child 1).uuid4 part.id line.quantity (unitForPart (some part))
      .onHand .receive receivedAt with
    lotId := some lotId
    storageLocationId := storage.map (·.id)
    unitPrice := oe.unitPrice
    currency := textOr oe.currency order.currency
    orderId := some order.id
    orderEntryId := some oe.id }

/-- The destination of a line: the location is locked before its constraints are read. -/
def lockedDestination (ctx : Ctx) (id : Option Uuid) (partId : Uuid)
    (notFound archived full : Err) : DbTx (Option StorageLocation) :=
  match id with
  | none => pure none
  | some id => do
    let storage ← Tx.ask fun db => openLocation db ctx.workspaceId id notFound archived full
    Tx.take (.advisory (.storage ctx.workspaceId storage.id))
    Tx.ask fun db => enforceStorageConstraints db ctx.workspaceId storage partId
    return some storage

/-- The attributes a turn of the loop sets on the loaded entry. -/
def countReceived (ctx : Ctx) (oe : OrderEntry) (quantity : Decimal) : OrderEntry :=
  { oe with quantityReceived := oe.quantityReceived + quantity, updatedBy := ctx.userId }

/-- The columns the `UPDATE` of a received entry writes. -/
def writtenCount (counted stored : OrderEntry) : OrderEntry :=
  { stored with quantityReceived := counted.quantityReceived, updatedBy := counted.updatedBy }

/-- One turn of the receive loop; `entries` are the rows read `FOR UPDATE`. -/
def receiveLineTx (ctx : Ctx) (order : Order) (serialTrackingOn : Bool) (receivedAt : Timestamp)
    (entries : List OrderEntry) (line : ReceiveLineIn) : DbTx (List OrderEntry) := do
  let oe ← Tx.orRaise (entries.find? (·.id = line.orderEntryId))
    (.order s!"order entry {uuidStr line.orderEntryId} not in this order")
  let partId ← Tx.orRaise oe.partId
    (.order "cannot receive an entry without a part — match it first")
  let outstanding := oe.quantityOrdered - oe.quantityReceived
  Tx.check (line.quantity ≤ outstanding)
    (.order (s!"line over-receives entry {uuidStr oe.id} " ++
      s!"(outstanding {quantityOut outstanding}, want {line.quantity})"))
  let part ← Tx.ask fun db =>
    partInWorkspace db ctx.workspaceId partId (.order "part not in workspace")
  Tx.check (serialTrackingOn && part.serialized → line.quantity = 1)
    (.order s!"serialized part {part.name} must be received one unit per line")
  Tx.check (serialTrackingOn && part.serialized → isBlank line.serialNumber = false)
    (.order s!"serialized part {part.name} requires a serial_number on the receive line")
  let storage ← lockedDestination ctx line.storageLocationId part.id
    (.order "storage location not in workspace") (.order "storage location is archived")
    (.order "storage location is marked full")
  let lot := receivedLot ctx order oe part line
  DbTx.insertLot lot
  DbTx.insertStockEntry (receivedStock ctx order oe part lot.id storage receivedAt line)
  let counted := countReceived ctx oe line.quantity
  Tx.put fun db => db.updateOrderEntry oe.id (writtenCount counted)
  return entries.map fun e => if e.id = oe.id then counted else e

def receiveLinesTx (ctx : Ctx) (order : Order) (serialTrackingOn : Bool) (receivedAt : Timestamp)
    (entries : List OrderEntry) : List ReceiveLineIn → DbTx (List OrderEntry)
  | [] => pure entries
  | line :: rest => do
    let entries ← receiveLineTx (ctx.child 0) order serialTrackingOn receivedAt entries line
    receiveLinesTx (ctx.child 1) order serialTrackingOn receivedAt entries rest

/-- `SELECT … FOR UPDATE` of the order's entries: the rows the statement finds, each
as it is stored once its lock is there. -/
def entriesForUpdate (ctx : Ctx) (orderId : Uuid) : DbTx (List OrderEntry) := do
  let db ← Tx.read
  let found := orderEntriesOf db ctx.workspaceId orderId
  Tx.takeAll (found.map fun e => .row .orderEntries e.id)
  let db ← Tx.read
  return found.filterMap fun e =>
    (orderEntriesOf db ctx.workspaceId orderId).find? (·.id = e.id)

/-- The order as the end of `receive` sets it. -/
def receivedOrder (ctx : Ctx) (order : Order) (payload : ReceiveIn) (receivedAt : Timestamp)
    (entries : List OrderEntry) : Order :=
  let status := orderStatus entries
  { order with
    status := status
    receivedOn :=
      if payload.receivedOn.isSome then payload.receivedOn
      else if status = .received ∧ order.receivedOn = none then some receivedAt.date
      else order.receivedOn
    updatedBy := ctx.userId }

/-- The `UPDATE` of a loaded order; there is none when no attribute changed. -/
def updateOrderTx (loaded new : Order) : DbTx Unit :=
  if new = loaded then pure () else do
    Tx.take (.row .orders loaded.id)
    Tx.put fun db => db.updateOrder loaded.id fun stored =>
      { stored with
        status := written loaded.status new.status stored.status
        receivedOn := written loaded.receivedOn new.receivedOn stored.receivedOn
        updatedBy := written loaded.updatedBy new.updatedBy stored.updatedBy }

def receiveTx (ctx : Ctx) (order : Order) (payload : ReceiveIn) : DbTx Unit := do
  Tx.check (order.status ≠ .cancelled) (.order "order is cancelled")
  let db ← Tx.read
  DbTx.lockParts ctx.workspaceId
    (((orderEntriesOf db ctx.workspaceId order.id).filterMap (·.partId)).map some)
  let entries ← entriesForUpdate ctx order.id
  let db ← Tx.read
  let serialTrackingOn := (db.workspace ctx.workspaceId).any (·.serialTrackingEnabled)
  let entries ← receiveLinesTx (ctx.child 0) order serialTrackingOn ctx.utcnow entries payload.lines
  updateOrderTx order (receivedOrder ctx order payload ctx.utcnow entries)

def receiveOrderTx (ctx : Ctx) (orderId : Uuid) (payload : ReceiveIn) : RouteTx := do
  let order ← Tx.ask fun db => getOrder ctx db orderId
  (receiveTx ctx order payload).mapError receiveError
  return fun _ => true

/-! ### Creating an order -/

def assertPartsLive (partArchived : Uuid → Bool) (ctx : Ctx) : List OrderEntryIn → DbTx Unit
  | [] => pure ()
  | payload :: rest => do
    Tx.ask fun db => assertPartLive partArchived ctx db payload.partId
    assertPartsLive partArchived ctx rest

def insertEntryTx (entry : OrderEntry) : DbTx Unit :=
  DbTx.insert (.row .orderEntries entry.id) (·.insertOrderEntry entry) fun db =>
    { db with orderEntries := db.orderEntries ++ [entry] }

def insertEntriesTx (ctx : Ctx) (orderId : Uuid) (idx : ℕ) : List OrderEntryIn → DbTx Unit
  | [] => pure ()
  | payload :: rest => do
    insertEntryTx (newOrderEntry ctx (ctx.child 0).uuid4 orderId payload idx)
    insertEntriesTx (ctx.child 1) orderId (idx + 1) rest

def createOrderTx (partArchived : Uuid → Bool) (ctx : Ctx) (payload : OrderCreateIn) :
    RouteTx := do
  let order := newOrder ctx payload
  DbTx.insert (.row .orders order.id) (·.insertOrder order) fun db =>
    { db with orders := db.orders ++ [order] }
  assertPartsLive partArchived ctx payload.entries
  insertEntriesTx (ctx.child 0) order.id 0 payload.entries
  return fun _ => true

/-! ### The entry routes -/

def addEntryTx (partArchived : Uuid → Bool) (ctx : Ctx) (orderId : Uuid)
    (payload : OrderEntryIn) : RouteTx := do
  let order ← Tx.ask fun db => getOrder ctx db orderId
  Tx.ask fun db => assertPartLive partArchived ctx db payload.partId
  let db ← Tx.read
  let nextIdx := nextOrderIndex (orderEntriesOf db ctx.workspaceId order.id)
  let entry := newOrderEntry ctx ctx.uuid4 order.id payload nextIdx
  insertEntryTx entry
  updateOrderTx order { order with status := if order.status = .draft then .opened else order.status }
  return fun _ => true

/-- The columns the `UPDATE` of `patch_entry` writes. -/
def writtenEntry (loaded new stored : OrderEntry) : OrderEntry :=
  { stored with
    partId := written loaded.partId new.partId stored.partId
    quantityOrdered := written loaded.quantityOrdered new.quantityOrdered stored.quantityOrdered
    unitPrice := written loaded.unitPrice new.unitPrice stored.unitPrice
    currency := written loaded.currency new.currency stored.currency
    updatedBy := written loaded.updatedBy new.updatedBy stored.updatedBy }

/-- The stored entry has not received more than the new `quantity_ordered`. -/
def CoversReceived (loaded new : OrderEntry) (db : Db) : Prop :=
  new.quantityOrdered ≠ loaded.quantityOrdered →
    ∀ stored ∈ db.orderEntries, stored.id = loaded.id →
      stored.quantityReceived ≤ new.quantityOrdered

instance (loaded new : OrderEntry) : DecidablePred (CoversReceived loaded new) := fun _ =>
  inferInstanceAs (Decidable (_ → _))

/-- The `UPDATE` of a loaded entry waits for the row and fails if it is gone. -/
def updateEntryTx (loaded new : OrderEntry) : DbTx Unit :=
  if new = loaded then pure () else do
    Tx.take (.row .orderEntries loaded.id)
    Tx.assume (CoversReceived loaded new)
    let db ← Tx.read
    Tx.check (∃ stored ∈ db.orderEntries, stored.id = loaded.id)
      (.integrity "StaleDataError")
    Tx.put fun db => db.updateOrderEntry loaded.id (writtenEntry loaded new)

/-- The entry is loaded, and its received quantity checked, without a lock. -/
def patchEntryTx (partArchived : Uuid → Bool) (ctx : Ctx) (orderId entryId : Uuid)
    (payload : OrderEntryPatch) : RouteTx := do
  let order ← Tx.ask fun db => getOrder ctx db orderId
  let e ← Tx.ask fun db => getEntry db order entryId
  Tx.ask fun db => assertPartLive partArchived ctx db payload.partId.get
  Tx.check (∀ q ∈ payload.quantityOrdered.get, e.quantityReceived ≤ (q.val : Decimal))
    (.http 400 "order.quantity_ordered_below_received"
      "quantity_ordered cannot be less than already-received quantity" .nothing)
  let row ← Tx.ofExcept (patchedEntry ctx e payload)
  updateEntryTx e row
  return fun _ => true

def delEntryTx (ctx : Ctx) (orderId entryId : Uuid) : RouteTx := do
  let order ← Tx.ask fun db => getOrder ctx db orderId
  let e ← Tx.ask fun db => getEntry db order entryId
  Tx.check (e.quantityReceived ≤ 0)
    (.http 400 "order.delete_received_entry" "cannot delete entry with received stock" .nothing)
  Tx.take (.row .orderEntries e.id)
  Tx.put fun db => db.deleteOrderEntry e.id
  return fun _ => true

def OrderCall.tx (call : OrderCall) : RouteTx :=
  match call.request with
  | .createOrder payload => createOrderTx call.partArchived call.ctx payload
  | .addEntry orderId payload => addEntryTx call.partArchived call.ctx orderId payload
  | .patchEntry orderId entryId payload =>
    patchEntryTx call.partArchived call.ctx orderId entryId payload
  | .delEntry orderId entryId => delEntryTx call.ctx orderId entryId
  | .receive orderId payload => receiveOrderTx call.ctx orderId payload

end StockManager

/-! ## Steps of a database session

What a session knows after the helpers every request is made of, under any
protocol of the others. -/

namespace StockManager

open Transactions

variable {ι : Type} {P : Protocol ι Db DbLock} {pending : Db → Db} {held : List DbLock} {db : Db}

theorem wp_insert {lock : DbLock} {ins : Db → Except Err Db} {append : Db → Db}
    {Q : Post Db DbLock Unit}
    (hQ : ∀ t row, Later P held db t → ins (pending t) = .ok row →
      Q () (append ∘ pending) (lock :: held) t) :
    wp P (DbTx.insert lock ins append) Q pending held db := by
  simp only [DbTx.insert, wp_bind, wp_take, wp_ask, wp_put]
  intro t ht u hu row hrow
  exact hQ u row (ht.trans (hu.mono (List.subset_cons_self ..))) hrow

theorem wp_lockedDestination {ctx : Ctx} {id : Option Uuid} {partId : Uuid}
    {notFound archived full : Err} {Q : Post Db DbLock (Option StorageLocation)}
    (hdb : Later P held db db)
    (hQ : ∀ storage more t, held ⊆ more → Later P held db t → Q storage pending more t) :
    wp P (lockedDestination ctx id partId notFound archived full) Q pending held db := by
  cases id with
  | none => exact hQ none held db (List.Subset.refl _) hdb
  | some id =>
    simp only [lockedDestination, wp_bind, wp_ask, wp_take, wp_pure]
    intro t ht storage _ u hu v hv _ _
    have hsub : held ⊆ .advisory (.storage ctx.workspaceId storage.id) :: held :=
      List.subset_cons_self ..
    exact hQ _ _ v hsub ((ht.trans hu).trans (hv.mono hsub))

/-- The rows read `FOR UPDATE` are locked and as they are stored. -/
theorem wp_entriesForUpdate {ctx : Ctx} {orderId : Uuid} {Q : Post Db DbLock (List OrderEntry)}
    (hQ : ∀ entries more t, held ⊆ more → Later P held db t →
      (∀ e ∈ entries, .row .orderEntries e.id ∈ more ∧
        e ∈ orderEntriesOf t ctx.workspaceId orderId) → Q entries id more t) :
    wp P (entriesForUpdate ctx orderId) Q id held db := by
  simp only [entriesForUpdate, wp_bind, wp_read, wp_pure, id]
  intro t ht
  apply wp_takeAll (Later.refl ht.2.choose_spec)
  intro more u hmore hlocks hu v hv
  apply hQ _ _ _ hmore ((ht.trans hu).trans (hv.mono hmore))
  intro e he
  obtain ⟨found, hfound, hsome⟩ := List.mem_filterMap.mp he
  have hid : e.id = found.id := by simpa using List.find?_some hsome
  refine ⟨hlocks ?_, List.mem_of_find?_eq_some hsome⟩
  rw [hid]
  exact List.mem_map_of_mem hfound

end StockManager
