import Mathlib
import StockManager.Effects.Rows
import StockManager.Model.OrderTransactions
import StockManager.Model.System

/-! # The status of an order

Only `receive` computes the status. In every run it is what `_order_status` gives
for the entries as the last receive left them; before the first receive it is
`draft` or `open`. -/

namespace StockManager

variable {orderId entryId : Uuid} {order : Order} {e row : OrderEntry} {payload : OrderEntryPatch}
  {serialTrackingOn : Bool} {receivedAt : Timestamp}
variable {entries : List OrderEntry} {entry : OrderEntry} {line : ReceiveLineIn}
  {written : Lot × StockEntry} {workspaceId otherId : Uuid} {result : ReceiveResult}

/-- A run of order requests with, for each order, its entries as they stood right
after the last accepted receive. -/
structure OrderLog where
  db : Db
  lastReceive : Uuid → Option (List OrderEntry)

def noteReceive (call : OrderCall) (db : Db) (lastReceive : Uuid → Option (List OrderEntry)) :
    Uuid → Option (List OrderEntry) :=
  match call.request with
  | .receive orderId _ => fun id =>
    if id = orderId then some (orderEntriesOf db call.ctx.workspaceId orderId) else lastReceive id
  | _ => lastReceive

def OrderLog.exec (call : OrderCall) (log : OrderLog) : Except Err OrderLog :=
  (execOrder call log.db).map fun db => ⟨db, noteReceive call db log.lastReceive⟩

def runOrders (db : Db) (calls : List OrderCall) : OrderLog :=
  Outcome.run OrderLog.exec ⟨db, fun _ => none⟩ calls

/-- What the status of an order says, with the entries after its last receive. -/
def StatusAfter (db : Db) (order : Order) : Option (List OrderEntry) → Prop
  | none => (order.status = .draft ∧ orderEntriesOf db order.workspaceId order.id = [] ∨
      order.status = .opened) ∧
      ∀ e ∈ orderEntriesOf db order.workspaceId order.id, e.quantityReceived = 0
  | some entries => order.status = orderStatus entries ∧
      (order.status = .partlyReceived ∨ order.status = .received)

/-- What every request keeps. -/
structure OrdersKept (log : OrderLog) : Prop where
  ids : (log.db.orders.map (·.id)).Nodup
  entryIds : (log.db.orderEntries.map (·.id)).Nodup
  owned : ∀ e ∈ log.db.orderEntries, ∃ o ∈ log.db.orders, o.id = e.orderId
  noted : ∀ id, log.lastReceive id ≠ none → ∃ o ∈ log.db.orders, o.id = id
  nonneg : ∀ e ∈ log.db.orderEntries, 0 ≤ e.quantityReceived
  status : ∀ o ∈ log.db.orders, StatusAfter log.db o (log.lastReceive o.id)

variable {ctx : Ctx} {partArchived : Uuid → Bool} {db db' : Db}

theorem getOrder_ok : getOrder ctx db orderId = .ok order ↔
    db.order orderId = some order ∧ order.workspaceId = ctx.workspaceId := by
  simp only [getOrder, Outcome.orRaise_ok, belongs_eq_some]

theorem order_mem (h : db.order orderId = some order) :
    order ∈ db.orders ∧ order.id = orderId :=
  ⟨List.mem_of_find?_eq_some h, by simpa using List.find?_some h⟩

theorem nodup_ids_append (h : (entries.map (·.id)).Nodup) (hfresh : ∀ r ∈ entries, r.id ≠ e.id) :
    ((entries ++ [e]).map (·.id)).Nodup := by
  rw [List.map_append, List.nodup_append]
  refine ⟨h, by simp, ?_⟩
  intro a ha b hb
  obtain ⟨r, hr, rfl⟩ := List.mem_map.mp ha
  have hb' : b = e.id := by simpa using hb
  rw [hb']
  exact hfresh r hr

theorem createEntries_rows {payloads : List OrderEntryIn} {idx : ℕ}
    (h : createEntries partArchived ctx db orderId idx payloads = .ok db') :
    db'.orders = db.orders ∧ ∃ rows, db'.orderEntries = db.orderEntries ++ rows ∧
      (rows = [] ↔ payloads = []) ∧
      (∀ e ∈ rows, e.orderId = orderId ∧ e.quantityReceived = 0) ∧
      ((db.orderEntries.map (·.id)).Nodup → (db'.orderEntries.map (·.id)).Nodup) := by
  induction payloads generalizing ctx db idx with
  | nil =>
    obtain rfl := Except.ok.inj h
    exact ⟨rfl, [], by simp, by simp, by simp, id⟩
  | cons payload rest ih =>
    simp only [createEntries, Outcome.bind_ok, Db.insertOrderEntry, Outcome.check_ok,
      Outcome.pure_ok] at h
    obtain ⟨_, _, _, ⟨_, hfresh, rfl⟩, hrest⟩ := h
    obtain ⟨horders, rows, hentries, _, hrows, hnodup⟩ := ih hrest
    refine ⟨horders, newOrderEntry ctx (ctx.child 0).uuid4 orderId payload idx :: rows, ?_, by simp,
      ?_, ?_⟩
    · rw [hentries]
      simp
    · intro e he
      rcases List.mem_cons.mp he with rfl | he
      · exact ⟨rfl, rfl⟩
      · exact hrows e he
    · exact fun hids => hnodup (nodup_ids_append hids hfresh)

theorem createOrder_rows {payload : OrderCreateIn}
    (h : createOrder partArchived ctx db payload = .ok (order, db')) :
    db'.orders = db.orders ++ [order] ∧ (∀ r ∈ db.orders, r.id ≠ order.id) ∧
      ∃ rows, db'.orderEntries = db.orderEntries ++ rows ∧
        (order.status = .draft ∧ rows = [] ∨ order.status = .opened) ∧
        (∀ e ∈ rows, e.orderId = order.id ∧ e.quantityReceived = 0) ∧
        ((db.orderEntries.map (·.id)).Nodup → (db'.orderEntries.map (·.id)).Nodup) := by
  simp only [createOrder, Outcome.bind_ok, Db.insertOrder, Outcome.check_ok, Outcome.pure_ok,
    Prod.mk.injEq] at h
  obtain ⟨_, ⟨_, hfresh, rfl⟩, _, hentries, rfl, rfl⟩ := h
  obtain ⟨horders, rows, heq, hempty, hrows, hnodup⟩ := createEntries_rows hentries
  refine ⟨horders, hfresh, rows, heq, ?_, hrows, hnodup⟩
  by_cases hnil : payload.entries = []
  · exact .inl ⟨by simp [newOrder, hnil], hempty.mpr hnil⟩
  · exact .inr (by simp [newOrder, hnil])

theorem addEntry_rows {payload : OrderEntryIn}
    (h : addEntry partArchived ctx db orderId payload = .ok (entry, db')) :
    ∃ order, db.order orderId = some order ∧
      db'.orders = db.orders.map (fun o =>
        if o.id = orderId ∧ order.status = .draft then { o with status := .opened } else o) ∧
      db'.orderEntries = db.orderEntries ++ [entry] ∧ entry.orderId = orderId ∧
      entry.quantityReceived = 0 ∧ ∀ r ∈ db.orderEntries, r.id ≠ entry.id := by
  simp only [addEntry, Outcome.bind_ok, getOrder_ok, Db.insertOrderEntry, Outcome.check_ok,
    Outcome.pure_ok, Prod.mk.injEq] at h
  obtain ⟨order, ⟨horder, _⟩, _, _, _, ⟨_, hfresh, rfl⟩, rfl, rfl⟩ := h
  obtain ⟨_, hid⟩ := order_mem horder
  refine ⟨order, horder, ?_, ?_, hid, rfl, hfresh⟩
  · by_cases hdraft : order.status = .draft
    · simp [hdraft, Db.updateOrder, hid]
    · simp [hdraft]
  · by_cases hdraft : order.status = .draft
    · simp [hdraft, Db.updateOrder]
    · simp [hdraft]

theorem getEntry_ok (h : getEntry db order entryId = .ok e) :
    e ∈ db.orderEntries ∧ e.id = entryId ∧ e.workspaceId = order.workspaceId ∧
      e.orderId = order.id := by
  have hfind := Outcome.orRaise_ok.mp h
  have hp := List.find?_some hfind
  exact ⟨List.mem_of_find?_eq_some hfind, of_decide_eq_true hp⟩

theorem patchedEntry_kept (h : patchedEntry ctx e payload = .ok row) : row.id = e.id ∧
      row.workspaceId = e.workspaceId ∧ row.orderId = e.orderId ∧
      row.quantityReceived = e.quantityReceived := by
  simp only [patchedEntry, Outcome.bind_ok, Outcome.pure_ok] at h
  obtain ⟨_, _, rfl⟩ := h
  exact ⟨rfl, rfl, rfl, rfl⟩

theorem patchEntry_rows
    (h : patchEntry partArchived ctx db orderId entryId payload = .ok (row, db')) :
    db'.orders = db.orders ∧ ∃ e ∈ db.orderEntries, db'.orderEntries =
        db.orderEntries.map (fun r => if r.id = e.id then row else r) ∧
      row.id = e.id ∧ row.workspaceId = e.workspaceId ∧ row.orderId = e.orderId ∧
      row.quantityReceived = e.quantityReceived := by
  simp only [patchEntry, Outcome.bind_ok, Outcome.check_ok, Outcome.pure_ok, Prod.mk.injEq] at h
  obtain ⟨order, _, e, he, _, _, _, _, _, hrow, rfl, rfl⟩ := h
  exact ⟨rfl, e, (getEntry_ok he).1, rfl, patchedEntry_kept hrow⟩

theorem delEntry_rows (h : delEntry ctx db orderId entryId = .ok db') :
    db'.orders = db.orders ∧ db'.orderEntries.Sublist db.orderEntries := by
  simp only [delEntry, Outcome.bind_ok, Outcome.check_ok, Outcome.pure_ok] at h
  obtain ⟨order, _, e, _, _, _, rfl⟩ := h
  exact ⟨rfl, List.filter_sublist⟩

theorem receiveLine_entries
    (h : receiveLine ctx db order serialTrackingOn receivedAt line = .ok (written, db')) :
    db'.orders = db.orders ∧ ∃ oe ∈ orderEntriesOf db ctx.workspaceId order.id,
      db'.orderEntries = db.orderEntries.map fun e => if e.id = oe.id then { e with
        quantityReceived := e.quantityReceived + line.quantity
        updatedBy := ctx.userId } else e := by
  simp only [receiveLine, Outcome.bind_ok, Outcome.check_ok, exists_const, Outcome.pure_ok,
    Outcome.orRaise_ok, insertLot_ok, insertStockEntry_ok, Prod.mk.injEq] at h
  obtain ⟨oe, hoe, _, _, _, _, _, _, _, _, _, _, ⟨_, rfl⟩, _, ⟨_, rfl⟩, _, rfl⟩ := h
  exact ⟨rfl, oe, List.mem_of_find?_eq_some hoe, rfl⟩

/-- What the lines of a receive do to the entries: no row loses anything, and only
rows of the order change. -/
structure Receiving (orderId : Uuid) (db db' : Db) : Prop where
  orders : db'.orders = db.orders
  entries : ∃ f : OrderEntry → OrderEntry, db'.orderEntries = db.orderEntries.map f ∧
    ∀ e ∈ db.orderEntries, (f e).id = e.id ∧ (f e).orderId = e.orderId ∧
      (f e).workspaceId = e.workspaceId ∧ e.quantityReceived ≤ (f e).quantityReceived ∧
      (e.orderId ≠ orderId → f e = e)

section Receiving

variable {orderId : Uuid}

theorem Receiving.refl (db : Db) : Receiving orderId db db :=
  ⟨rfl, id, by simp, fun _ _ => ⟨rfl, rfl, rfl, le_rfl, fun _ => rfl⟩⟩

theorem Receiving.trans {a b c : Db} (hab : Receiving orderId a b) (hbc : Receiving orderId b c) :
    Receiving orderId a c := by
  obtain ⟨f, hf, hkeepF⟩ := hab.entries
  obtain ⟨g, hg, hkeepG⟩ := hbc.entries
  refine ⟨hbc.orders.trans hab.orders, g ∘ f, by rw [hg, hf, List.map_map], ?_⟩
  intro e he
  obtain ⟨hid, horder, hws, hle, hother⟩ := hkeepF e he
  obtain ⟨hid', horder', hws', hle', hother'⟩ := hkeepG (f e) (hf ▸ List.mem_map_of_mem he)
  refine ⟨hid'.trans hid, horder'.trans horder, hws'.trans hws, le_trans hle hle', ?_⟩
  intro hne
  rw [Function.comp_apply, hother' (by rw [horder]; exact hne), hother hne]

theorem Receiving.entryIds (h : Receiving orderId db db') :
    db'.orderEntries.map (·.id) = db.orderEntries.map (·.id) := by
  obtain ⟨f, hf, hkeep⟩ := h.entries
  rw [hf, List.map_map]
  exact List.map_congr_left fun e he => (hkeep e he).1

theorem Receiving.nonneg (h : Receiving orderId db db')
    (hnonneg : ∀ e ∈ db.orderEntries, 0 ≤ e.quantityReceived) :
    ∀ e ∈ db'.orderEntries, 0 ≤ e.quantityReceived := by
  obtain ⟨f, hf, hkeep⟩ := h.entries
  rw [hf]
  intro e he
  obtain ⟨old, hold, rfl⟩ := List.mem_map.mp he
  exact le_trans (hnonneg old hold) (hkeep old hold).2.2.2.1

theorem Receiving.others (h : Receiving orderId db db') (hne : otherId ≠ orderId) :
    orderEntriesOf db' workspaceId otherId = orderEntriesOf db workspaceId otherId := by
  obtain ⟨f, hf, hkeep⟩ := h.entries
  unfold orderEntriesOf
  rw [hf, List.filter_map]
  have hsame : ∀ e ∈ db.orderEntries.filter
      ((fun e : OrderEntry => decide (e.workspaceId = workspaceId ∧ e.orderId = otherId)) ∘ f),
      f e = e := by
    intro e he
    obtain ⟨hmem, hkey⟩ := List.mem_filter.mp he
    obtain ⟨_, horder, _, _, hother⟩ := hkeep e hmem
    have hid : (f e).orderId = otherId := (of_decide_eq_true hkey).2
    exact hother (by rw [← horder, hid]; exact hne)
  rw [List.map_congr_left hsame, List.map_id']
  apply List.filter_congr
  intro e he
  obtain ⟨_, horder, hws, _⟩ := hkeep e he
  simp only [Function.comp_apply, horder, hws]

def SomeReceived (db : Db) (workspaceId orderId : Uuid) : Prop :=
  ∃ e ∈ orderEntriesOf db workspaceId orderId, 0 < e.quantityReceived

theorem Receiving.someReceived (h : Receiving orderId db db')
    (hsome : SomeReceived db workspaceId otherId) : SomeReceived db' workspaceId otherId := by
  obtain ⟨f, hf, hkeep⟩ := h.entries
  obtain ⟨e, he, hpos⟩ := hsome
  obtain ⟨hmem, hkey⟩ := List.mem_filter.mp he
  obtain ⟨hws, horder⟩ := of_decide_eq_true hkey
  obtain ⟨_, horder', hws', hle, _⟩ := hkeep e hmem
  refine ⟨f e, List.mem_filter.mpr ⟨?_, ?_⟩, lt_of_lt_of_le hpos hle⟩
  · rw [hf]
    exact List.mem_map_of_mem hmem
  · exact decide_eq_true ⟨hws'.trans hws, horder'.trans horder⟩

end Receiving

theorem receiveLine_receiving
    (h : receiveLine ctx db order serialTrackingOn receivedAt line = .ok (written, db'))
    (hids : (db.orderEntries.map (·.id)).Nodup)
    (hnonneg : ∀ e ∈ db.orderEntries, 0 ≤ e.quantityReceived) :
    Receiving order.id db db' ∧ SomeReceived db' ctx.workspaceId order.id := by
  obtain ⟨horders, oe, hoe, hentries⟩ := receiveLine_entries h
  obtain ⟨hmem, hkey⟩ := List.mem_filter.mp hoe
  have hpos : (0 : Decimal) < line.quantity := Int.cast_pos.mpr line.quantityPos
  refine ⟨⟨horders, _, hentries, ?_⟩, ?_⟩
  · intro e he
    split
    next hid =>
      have heq : e = oe := List.inj_on_of_nodup_map hids he hmem hid
      refine ⟨rfl, rfl, rfl, by linarith, ?_⟩
      intro hne
      rw [heq] at hne
      exact absurd (of_decide_eq_true hkey).2 hne
    next => exact ⟨rfl, rfl, rfl, le_rfl, fun _ => rfl⟩
  · refine ⟨{ oe with
      quantityReceived := oe.quantityReceived + line.quantity
      updatedBy := ctx.userId }, List.mem_filter.mpr ⟨?_, hkey⟩, ?_⟩
    · rw [hentries]
      exact List.mem_map.mpr ⟨oe, hmem, if_pos rfl⟩
    · have hold := hnonneg oe hmem
      linarith

theorem receiveLines_receiving {lines : List ReceiveLineIn} {written : List (Lot × StockEntry)}
    (h : receiveLines ctx db order serialTrackingOn receivedAt lines = .ok (written, db'))
    (hids : (db.orderEntries.map (·.id)).Nodup)
    (hnonneg : ∀ e ∈ db.orderEntries, 0 ≤ e.quantityReceived) :
    Receiving order.id db db' ∧ (lines ≠ [] → SomeReceived db' ctx.workspaceId order.id) := by
  induction lines generalizing ctx db written with
  | nil =>
    obtain ⟨_, rfl⟩ := Prod.mk.inj (Except.ok.inj h)
    exact ⟨.refl db, fun hne => absurd rfl hne⟩
  | cons line rest ih =>
    simp only [receiveLines, Outcome.bind_ok, Prod.exists, Outcome.pure_ok, Prod.mk.injEq] at h
    obtain ⟨_, _, db₁, hline, _, db₂, hrest, _, rfl⟩ := h
    obtain ⟨hfirst, hsome⟩ := receiveLine_receiving hline hids hnonneg
    have hids₁ : (db₁.orderEntries.map (·.id)).Nodup := by
      rw [hfirst.entryIds]
      exact hids
    obtain ⟨hothers, _⟩ := ih hrest hids₁ (hfirst.nonneg hnonneg)
    exact ⟨hfirst.trans hothers, fun _ => hothers.someReceived hsome⟩

theorem receive_rows {payload : ReceiveIn} (h : receive ctx db order payload = .ok (result, db'))
    (hids : (db.orderEntries.map (·.id)).Nodup)
    (hnonneg : ∀ e ∈ db.orderEntries, 0 ≤ e.quantityReceived) :
    ∃ db₁, Receiving order.id db db₁ ∧ SomeReceived db₁ ctx.workspaceId order.id ∧
      db'.orderEntries = db₁.orderEntries ∧
      ∃ receivedOn, db'.orders = db.orders.map fun o => if o.id = order.id then { o with
        status := orderStatus (orderEntriesOf db' ctx.workspaceId order.id)
        receivedOn := receivedOn
        updatedBy := ctx.userId } else o := by
  simp only [receive, Outcome.bind_ok, Prod.exists, Outcome.pure_ok, Prod.mk.injEq,
    Outcome.check_ok] at h
  obtain ⟨_, _, _, db₁, hlines, _, rfl⟩ := h
  obtain ⟨hreceiving, hsome⟩ := receiveLines_receiving hlines hids hnonneg
  refine ⟨db₁, hreceiving, hsome payload.linesNonempty, rfl, ?_⟩
  simp only [Db.updateOrder, hreceiving.orders]
  exact ⟨_, rfl⟩

theorem orderStatus_received (hnonneg : ∀ e ∈ entries, 0 ≤ e.quantityReceived)
    (hsome : ∃ e ∈ entries, 0 < e.quantityReceived) :
    orderStatus entries = .partlyReceived ∨ orderStatus entries = .received := by
  obtain ⟨e, he, hpos⟩ := hsome
  have hne : entries ≠ [] := List.ne_nil_of_mem he
  have hle : e.quantityReceived ≤ (entries.map (·.quantityReceived)).sum := by
    apply List.single_le_sum _ _ (List.mem_map_of_mem he)
    intro x hx
    obtain ⟨r, hr, rfl⟩ := List.mem_map.mp hx
    exact hnonneg r hr
  have hsum : (entries.map (·.quantityReceived)).sum ≠ 0 := ne_of_gt (lt_of_lt_of_le hpos hle)
  simp only [orderStatus, if_neg hne, if_neg hsum]
  split
  next => exact .inl rfl
  next => exact .inr rfl

theorem statusAfter_congr {o o' : Order} {noted : Option (List OrderEntry)}
    (hstatus : o'.status = o.status)
    (hentries : orderEntriesOf db' o'.workspaceId o'.id = orderEntriesOf db o.workspaceId o.id)
    (h : StatusAfter db o noted) : StatusAfter db' o' noted := by
  cases noted with
  | none =>
    unfold StatusAfter at h ⊢
    rw [hstatus, hentries]
    exact h
  | some entries =>
    unfold StatusAfter at h ⊢
    rw [hstatus]
    exact h

theorem orderEntriesOf_append {rows : List OrderEntry} {workspaceId orderId : Uuid}
    (hentries : db'.orderEntries = db.orderEntries ++ rows) (h : ∀ e ∈ rows, e.orderId ≠ orderId) :
    orderEntriesOf db' workspaceId orderId = orderEntriesOf db workspaceId orderId := by
  unfold orderEntriesOf
  rw [hentries, List.filter_append]
  have hnil : rows.filter (fun e => e.workspaceId = workspaceId ∧ e.orderId = orderId) = [] := by
    rw [List.filter_eq_nil_iff]
    intro e he hkey
    exact h e he (of_decide_eq_true hkey).2
  rw [hnil, List.append_nil]

variable {log : OrderLog}

theorem createOrder_kept (h : OrdersKept log) {payload : OrderCreateIn}
    (hop : createOrder partArchived ctx log.db payload = .ok (order, db')) :
    OrdersKept ⟨db', log.lastReceive⟩ := by
  obtain ⟨horders, hfresh, rows, hentries, hstatus, hrows, hnodup⟩ := createOrder_rows hop
  constructor
  case ids =>
    rw [horders, List.map_append, List.nodup_append]
    refine ⟨h.ids, by simp, ?_⟩
    intro a ha b hb
    obtain ⟨r, hr, rfl⟩ := List.mem_map.mp ha
    have hb' : b = order.id := by simpa using hb
    rw [hb']
    exact hfresh r hr
  case entryIds => exact hnodup h.entryIds
  case owned =>
    intro e he
    rw [hentries] at he
    rcases List.mem_append.mp he with he | he
    · obtain ⟨o, ho, hid⟩ := h.owned e he
      exact ⟨o, by rw [horders]; exact List.mem_append_left _ ho, hid⟩
    · exact ⟨order, by rw [horders]; simp, (hrows e he).1.symm⟩
  case noted =>
    intro id hid
    obtain ⟨o, ho, heq⟩ := h.noted id hid
    exact ⟨o, by rw [horders]; exact List.mem_append_left _ ho, heq⟩
  case nonneg =>
    intro e he
    rw [hentries] at he
    rcases List.mem_append.mp he with he | he
    · exact h.nonneg e he
    · exact le_of_eq (hrows e he).2.symm
  case status =>
    intro o ho
    rw [horders] at ho
    rcases List.mem_append.mp ho with hold | hnew
    · refine statusAfter_congr rfl (orderEntriesOf_append hentries ?_) (h.status o hold)
      intro e he
      rw [(hrows e he).1]
      exact (hfresh o hold).symm
    · obtain rfl : o = order := by simpa using hnew
      have hnone : log.lastReceive o.id = none := by
        by_contra hsome
        obtain ⟨r, hr, heq⟩ := h.noted _ hsome
        exact hfresh r hr heq
      have hnew : ∀ e ∈ orderEntriesOf db' o.workspaceId o.id, e ∈ rows := by
        intro e he
        obtain ⟨hmem, hkey⟩ := List.mem_filter.mp he
        rw [hentries] at hmem
        rcases List.mem_append.mp hmem with hmem | hmem
        · obtain ⟨r, hr, heq⟩ := h.owned e hmem
          exact absurd (heq.trans (of_decide_eq_true hkey).2) (hfresh r hr)
        · exact hmem
      rw [hnone]
      refine ⟨?_, fun e he => (hrows e (hnew e he)).2⟩
      rcases hstatus with ⟨hdraft, rfl⟩ | hopen
      · left
        refine ⟨hdraft, ?_⟩
        rw [List.eq_nil_iff_forall_not_mem]
        intro e he
        cases hnew e he
      · exact .inr hopen

theorem addEntry_kept (h : OrdersKept log) {payload : OrderEntryIn}
    (hop : addEntry partArchived ctx log.db orderId payload = .ok (entry, db')) :
    OrdersKept ⟨db', log.lastReceive⟩ := by
  obtain ⟨order, horder, horders, hentries, hof, hzero, hfresh⟩ := addEntry_rows hop
  obtain ⟨hmem, hid⟩ := order_mem horder
  have hkeys : db'.orders.map (·.id) = log.db.orders.map (·.id) := by
    rw [horders, List.map_map]
    apply List.map_congr_left
    intro o _
    simp only [Function.comp_apply]
    split <;> rfl
  have hexists : ∀ id, (∃ o ∈ log.db.orders, o.id = id) → ∃ o ∈ db'.orders, o.id = id := by
    intro id hold
    have hin : id ∈ db'.orders.map (·.id) := by
      rw [hkeys]
      exact List.mem_map.mpr hold
    exact List.mem_map.mp hin
  constructor
  case ids =>
    rw [hkeys]
    exact h.ids
  case entryIds =>
    rw [hentries]
    exact nodup_ids_append h.entryIds hfresh
  case owned =>
    intro e he
    rw [hentries] at he
    rcases List.mem_append.mp he with he | he
    · exact hexists _ (h.owned e he)
    · obtain rfl : e = entry := by simpa using he
      exact hexists _ ⟨order, hmem, hid.trans hof.symm⟩
  case noted => exact fun id hnoted => hexists id (h.noted id hnoted)
  case nonneg =>
    intro e he
    rw [hentries] at he
    rcases List.mem_append.mp he with he | he
    · exact h.nonneg e he
    · obtain rfl : e = entry := by simpa using he
      exact le_of_eq hzero.symm
  case status =>
    intro o' ho'
    rw [horders] at ho'
    obtain ⟨o, ho, rfl⟩ := List.mem_map.mp ho'
    have hold := h.status o ho
    by_cases hoid : o.id = orderId
    · have heq : o = order := List.inj_on_of_nodup_map h.ids ho hmem (hoid.trans hid.symm)
      subst heq
      cases hnoted : log.lastReceive o.id with
      | none =>
        rw [hnoted] at hold
        -- The first entry opens a draft.
        have hopened : (if o.id = orderId ∧ o.status = .draft then
            { o with status := .opened } else o).status = .opened := by
          rcases hold.1 with ⟨hdraft, _⟩ | hopen
          · rw [if_pos ⟨hoid, hdraft⟩]
          · rw [if_neg fun hc => absurd (hopen.symm.trans hc.2) (by decide), hopen]
        have hsame : (if o.id = orderId ∧ o.status = .draft then
            { o with status := .opened } else o).id = o.id ∧
            (if o.id = orderId ∧ o.status = .draft then
              { o with status := .opened } else o).workspaceId = o.workspaceId := by
          split <;> exact ⟨rfl, rfl⟩
        rw [hsame.1, hnoted]
        refine ⟨.inr hopened, ?_⟩
        rw [hsame.1, hsame.2]
        intro e he
        obtain ⟨hin, hkey⟩ := List.mem_filter.mp he
        rw [hentries] at hin
        rcases List.mem_append.mp hin with hin | hin
        · exact hold.2 e (List.mem_filter.mpr ⟨hin, hkey⟩)
        · obtain rfl : e = entry := by simpa using hin
          exact hzero
      | some entries =>
        rw [hnoted] at hold
        have hnot : ¬ (o.id = orderId ∧ o.status = .draft) := by
          rintro ⟨_, hdraft⟩
          rcases hold.2 with hstatus | hstatus <;> rw [hdraft] at hstatus <;> cases hstatus
        rw [if_neg hnot, hnoted]
        exact hold
    · rw [if_neg fun hc => hoid hc.1]
      refine statusAfter_congr rfl (orderEntriesOf_append hentries ?_) hold
      intro e he
      obtain rfl : e = entry := by simpa using he
      rw [hof]
      exact Ne.symm hoid

theorem patchEntry_kept (h : OrdersKept log)
    (hop : patchEntry partArchived ctx log.db orderId entryId payload = .ok (row, db')) :
    OrdersKept ⟨db', log.lastReceive⟩ := by
  obtain ⟨horders, e, he, hentries, hid, hws, hof, hreceived⟩ := patchEntry_rows hop
  have hkeep : ∀ r ∈ log.db.orderEntries, (if r.id = e.id then row else r).id = r.id ∧
      (if r.id = e.id then row else r).workspaceId = r.workspaceId ∧
      (if r.id = e.id then row else r).orderId = r.orderId ∧
      (if r.id = e.id then row else r).quantityReceived = r.quantityReceived := by
    intro r hr
    split
    next heq =>
      have hre : r = e := List.inj_on_of_nodup_map h.entryIds hr he heq
      rw [hre]
      exact ⟨hid, hws, hof, hreceived⟩
    next => exact ⟨rfl, rfl, rfl, rfl⟩
  constructor
  case ids =>
    rw [horders]
    exact h.ids
  case entryIds =>
    rw [hentries, List.map_map]
    have hsame : log.db.orderEntries.map ((·.id) ∘ fun r => if r.id = e.id then row else r) =
        log.db.orderEntries.map (·.id) := List.map_congr_left fun r hr => (hkeep r hr).1
    rw [hsame]
    exact h.entryIds
  case owned =>
    intro r' hr'
    rw [hentries] at hr'
    obtain ⟨r, hr, rfl⟩ := List.mem_map.mp hr'
    rw [horders, (hkeep r hr).2.2.1]
    exact h.owned r hr
  case noted =>
    rw [horders]
    exact h.noted
  case nonneg =>
    intro r' hr'
    rw [hentries] at hr'
    obtain ⟨r, hr, rfl⟩ := List.mem_map.mp hr'
    rw [(hkeep r hr).2.2.2]
    exact h.nonneg r hr
  case status =>
    intro o ho
    rw [horders] at ho
    have hold := h.status o ho
    cases hnoted : log.lastReceive o.id with
    | some entries =>
      rw [hnoted] at hold
      exact hold
    | none =>
      rw [hnoted] at hold
      have himage : ∀ r' ∈ orderEntriesOf db' o.workspaceId o.id,
          ∃ r ∈ orderEntriesOf log.db o.workspaceId o.id,
            r'.quantityReceived = r.quantityReceived := by
        intro r' hr'
        obtain ⟨hin, hkey⟩ := List.mem_filter.mp hr'
        rw [hentries] at hin
        obtain ⟨r, hr, rfl⟩ := List.mem_map.mp hin
        obtain ⟨_, hws', hof', hrec'⟩ := hkeep r hr
        rw [hws', hof'] at hkey
        exact ⟨r, List.mem_filter.mpr ⟨hr, hkey⟩, hrec'⟩
      refine ⟨?_, ?_⟩
      · rcases hold.1 with ⟨hdraft, hnil⟩ | hopen
        · left
          refine ⟨hdraft, ?_⟩
          rw [List.eq_nil_iff_forall_not_mem]
          intro r' hr'
          obtain ⟨r, hr, _⟩ := himage r' hr'
          rw [hnil] at hr
          cases hr
        · exact .inr hopen
      · intro r' hr'
        obtain ⟨r, hr, heq⟩ := himage r' hr'
        rw [heq]
        exact hold.2 r hr

theorem delEntry_kept (h : OrdersKept log) (hop : delEntry ctx log.db orderId entryId = .ok db') :
    OrdersKept ⟨db', log.lastReceive⟩ := by
  obtain ⟨horders, hsub⟩ := delEntry_rows hop
  constructor
  case ids =>
    rw [horders]
    exact h.ids
  case entryIds => exact h.entryIds.sublist (hsub.map _)
  case owned =>
    intro e he
    rw [horders]
    exact h.owned e (hsub.subset he)
  case noted =>
    rw [horders]
    exact h.noted
  case nonneg => exact fun e he => h.nonneg e (hsub.subset he)
  case status =>
    intro o ho
    rw [horders] at ho
    have hold := h.status o ho
    have hentries : (orderEntriesOf db' o.workspaceId o.id).Sublist
        (orderEntriesOf log.db o.workspaceId o.id) := hsub.filter _
    cases hnoted : log.lastReceive o.id with
    | some entries =>
      rw [hnoted] at hold
      exact hold
    | none =>
      rw [hnoted] at hold
      refine ⟨?_, fun e he => hold.2 e (hentries.subset he)⟩
      rcases hold.1 with ⟨hdraft, hnil⟩ | hopen
      · left
        rw [hnil] at hentries
        exact ⟨hdraft, List.sublist_nil.mp hentries⟩
      · exact .inr hopen

theorem receive_kept (h : OrdersKept log) {payload : ReceiveIn} (horder : order ∈ log.db.orders)
    (hop : receive ctx log.db order payload = .ok (result, db')) :
    OrdersKept ⟨db', fun id => if id = order.id then
      some (orderEntriesOf db' ctx.workspaceId order.id) else log.lastReceive id⟩ := by
  obtain ⟨db₁, hreceiving, hsome, hsame, receivedOn, horders⟩ := receive_rows hop h.entryIds h.nonneg
  have hkeys : db'.orders.map (·.id) = log.db.orders.map (·.id) := by
    rw [horders, List.map_map]
    apply List.map_congr_left
    intro o _
    simp only [Function.comp_apply]
    split <;> rfl
  have hexists : ∀ id, (∃ o ∈ log.db.orders, o.id = id) → ∃ o ∈ db'.orders, o.id = id := by
    intro id hold
    have hin : id ∈ db'.orders.map (·.id) := by
      rw [hkeys]
      exact List.mem_map.mpr hold
    exact List.mem_map.mp hin
  have hentriesOf : ∀ workspaceId id, orderEntriesOf db' workspaceId id =
      orderEntriesOf db₁ workspaceId id := by
    intro workspaceId id
    simp only [orderEntriesOf, hsame]
  have hnonneg : ∀ e ∈ db'.orderEntries, 0 ≤ e.quantityReceived := by
    rw [hsame]
    exact hreceiving.nonneg h.nonneg
  constructor
  case ids =>
    rw [hkeys]
    exact h.ids
  case entryIds =>
    rw [hsame, hreceiving.entryIds]
    exact h.entryIds
  case owned =>
    intro e he
    rw [hsame] at he
    obtain ⟨f, hf, hkeep⟩ := hreceiving.entries
    rw [hf] at he
    obtain ⟨old, hold, rfl⟩ := List.mem_map.mp he
    rw [(hkeep old hold).2.1]
    exact hexists _ (h.owned old hold)
  case noted =>
    intro id hid
    by_cases heq : id = order.id
    · exact hexists id ⟨order, horder, heq.symm⟩
    · exact hexists id (h.noted id (by simpa [heq] using hid))
  case nonneg => exact hnonneg
  case status =>
    intro o' ho'
    rw [horders] at ho'
    obtain ⟨o, ho, rfl⟩ := List.mem_map.mp ho'
    by_cases hid : o.id = order.id
    · rw [if_pos hid]
      dsimp only
      rw [if_pos hid]
      refine ⟨rfl, ?_⟩
      apply orderStatus_received
      · intro e he
        exact hnonneg e (List.mem_of_mem_filter he)
      · rw [hentriesOf]
        exact hsome
    · rw [if_neg hid]
      dsimp only
      rw [if_neg hid]
      apply statusAfter_congr rfl _ (h.status o ho)
      rw [hentriesOf, hreceiving.others hid]

theorem orderLog_exec_kept {call : OrderCall} {log log' : OrderLog} (h : OrdersKept log)
    (hexec : OrderLog.exec call log = .ok log') : OrdersKept log' := by
  obtain ⟨db', hop, rfl⟩ := Outcome.map_ok.mp hexec
  obtain ⟨ctx, partArchived, request⟩ := call
  cases request with
  | createOrder payload =>
    obtain ⟨⟨order, _⟩, hcreate, rfl⟩ := Outcome.map_ok.mp hop
    exact createOrder_kept h hcreate
  | addEntry orderId payload =>
    obtain ⟨⟨entry, _⟩, hadd, rfl⟩ := Outcome.map_ok.mp hop
    exact addEntry_kept h hadd
  | patchEntry orderId entryId payload =>
    obtain ⟨⟨row, _⟩, hpatch, rfl⟩ := Outcome.map_ok.mp hop
    exact patchEntry_kept h hpatch
  | delEntry orderId entryId => exact delEntry_kept h hop
  | receive orderId payload =>
    obtain ⟨⟨result, _⟩, hreceive, rfl⟩ := Outcome.map_ok.mp hop
    simp only [receiveOrder, Outcome.bind_ok, Outcome.mapError_ok, getOrder_ok] at hreceive
    obtain ⟨order, ⟨horder, hws⟩, hreceive⟩ := hreceive
    obtain ⟨hmem, hid⟩ := order_mem horder
    subst hid
    exact receive_kept h hmem hreceive

/-- In every run the status of an order is what `_order_status` gives for its
entries right after the last accepted receive, `partial` or `received`; before any
receive nothing was received and it is `open`, or `draft` without entries. -/
theorem orderStatus_afterLastReceive {db₀ : Db} (horders : db₀.orders = [])
    (hentries : db₀.orderEntries = []) (calls : List OrderCall) :
    ∀ o ∈ (runOrders db₀ calls).db.orders,
      StatusAfter (runOrders db₀ calls).db o ((runOrders db₀ calls).lastReceive o.id) := by
  have hstart : OrdersKept ⟨db₀, fun _ => none⟩ := by
    refine ⟨by simp [horders], by simp [hentries], ?_, ?_, ?_, ?_⟩
    · simp [hentries]
    · exact fun id hid => absurd rfl hid
    · simp [hentries]
    · simp [horders]
  have hrun : OrdersKept (runOrders db₀ calls) :=
    Outcome.run_invariant (fun _ _ _ hI hexec => orderLog_exec_kept hI hexec) calls hstart
  exact hrun.status

/-- An order for five bolts. -/
def sampleOrder : OrderRequest :=
  .createOrder ⟨"po", none, [⟨some 10, 5, none, none, by decide⟩], by decide⟩

def sampleReceive (orderId entryId : Uuid) (quantity : ℤ) (h : 0 < quantity) : OrderRequest :=
  .receive orderId ⟨none, [⟨entryId, quantity, some 20, none, none, h⟩], by simp⟩

def sampleOrderCalls : List OrderCall :=
  [⟨sampleCtx 100, fun _ => false, sampleOrder⟩,
    ⟨sampleCtx 200, fun _ => false, sampleReceive 100 104 2 (by decide)⟩]

theorem orderStatus_afterLastReceive_sample :
    ∃ o ∈ (runOrders sampleDb sampleOrderCalls).db.orders, o.status = .partlyReceived ∧
      StatusAfter (runOrders sampleDb sampleOrderCalls).db o
        ((runOrders sampleDb sampleOrderCalls).lastReceive o.id) := by
  have hpartial : ∃ o ∈ (runOrders sampleDb sampleOrderCalls).db.orders,
      o.status = .partlyReceived := by
    decide +kernel
  obtain ⟨o, ho, hstatus⟩ := hpartial
  exact ⟨o, ho, hstatus, orderStatus_afterLastReceive rfl rfl sampleOrderCalls o ho⟩

/-- Five bolts are ordered and received, then three nuts are added: the status stays
`received`. -/
theorem addEntry_leaves_received :
    ¬ ∀ (db₀ : Db) (calls : List OrderCall), db₀.orders = [] → db₀.orderEntries = [] →
      ∀ o ∈ (runOrders db₀ calls).db.orders,
        o.status = orderStatus (orderEntriesOf (runOrders db₀ calls).db o.workspaceId o.id) ∨
          o.status = .draft ∧ ∀ e ∈ orderEntriesOf (runOrders db₀ calls).db o.workspaceId o.id,
            e.quantityReceived = 0 := by
  intro h
  have hmatch := h sampleDb [⟨sampleCtx 100, fun _ => false, sampleOrder⟩,
    ⟨sampleCtx 200, fun _ => false, sampleReceive 100 104 5 (by decide)⟩,
    ⟨sampleCtx 300, fun _ => false, .addEntry 100 ⟨some 11, 3, none, none, by decide⟩⟩] rfl rfl
  revert hmatch
  decide +kernel

end StockManager
