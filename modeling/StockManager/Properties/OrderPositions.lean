import StockManager.Properties.OrderStatus

/-! # The positions of order lines

`add_entry` takes the highest `order_index` of the order and one more, but reads a
highest index of 0 as no entry at all. -/

namespace StockManager

def OrderEntry.position (e : OrderEntry) : Uuid × Uuid × ℤ := (e.workspaceId, e.orderId, e.orderIndex)

/-- `add_entry` does not meet an order whose highest index is 0. -/
def TopNotZero (call : OrderCall) (db : Db) : Prop :=
  match call.request with
  | .addEntry orderId _ =>
    ((orderEntriesOf db call.ctx.workspaceId orderId).map (·.orderIndex)).max? ≠ some 0
  | _ => True

/-- An accepted `add_entry` puts its entry after all entries of the order. -/
def AddsLast (call : OrderCall) (db : Db) : Prop :=
  match call.request with
  | .addEntry orderId payload => ∀ entry db', addEntry call.partArchived call.ctx db orderId payload =
      .ok (entry, db') → ∀ e ∈ orderEntriesOf db call.ctx.workspaceId orderId,
        e.orderIndex < entry.orderIndex
  | _ => True

/-- What every request keeps: no two entries have one place, and an order that is not
there has no entries. -/
structure Positioned (db : Db) : Prop where
  ids : (db.orderEntries.map (·.id)).Nodup
  distinct : (db.orderEntries.map OrderEntry.position).Nodup
  owned : ∀ e ∈ db.orderEntries, ∃ o ∈ db.orders, o.id = e.orderId

variable {ctx : Ctx} {partArchived : Uuid → Bool} {db db' : Db}

theorem nextOrderIndex_of_top {entries : List OrderEntry} {top : ℤ}
    (h : (entries.map (·.orderIndex)).max? = some top) :
    nextOrderIndex entries = (if top = 0 then -1 else top) + 1 := by
  unfold nextOrderIndex
  rw [h]

theorem lt_nextOrderIndex {entries : List OrderEntry}
    (htop : (entries.map (·.orderIndex)).max? ≠ some 0) :
    ∀ e ∈ entries, e.orderIndex < nextOrderIndex entries := by
  intro e he
  have hmem : e.orderIndex ∈ entries.map (·.orderIndex) := List.mem_map_of_mem he
  cases hmax : (entries.map (·.orderIndex)).max? with
  | none =>
    rw [List.max?_eq_none_iff.mp hmax] at hmem
    cases hmem
  | some top =>
    have hle : e.orderIndex ≤ top := (List.max?_eq_some_iff.mp hmax).2 _ hmem
    have hne : top ≠ 0 := by
      intro hzero
      exact htop (hzero ▸ hmax)
    rw [nextOrderIndex_of_top hmax, if_neg hne]
    omega

theorem addEntry_index {orderId : Uuid} {payload : OrderEntryIn} {entry : OrderEntry}
    (h : addEntry partArchived ctx db orderId payload = .ok (entry, db')) :
    entry.position = (ctx.workspaceId, orderId,
      nextOrderIndex (orderEntriesOf db ctx.workspaceId orderId)) := by
  simp only [addEntry, Outcome.bind_ok, getOrder_ok, Outcome.pure_ok, Prod.mk.injEq] at h
  obtain ⟨order, ⟨horder, _⟩, _, _, _, _, rfl, _⟩ := h
  rw [← (order_mem horder).2]
  rfl

theorem addsLast_of_top {call : OrderCall} (h : Outcome.Accepted execOrder TopNotZero call db) :
    AddsLast call db := by
  obtain ⟨ctx, partArchived, request⟩ := call
  cases request with
  | addEntry orderId payload =>
    intro entry db' hadd e he
    have hindex : entry.orderIndex = nextOrderIndex (orderEntriesOf db ctx.workspaceId orderId) :=
      congrArg (fun place => place.2.2) (addEntry_index hadd)
    have htop : TopNotZero ⟨ctx, partArchived, .addEntry orderId payload⟩ db :=
      h ⟨db', Outcome.map_ok.mpr ⟨_, hadd, rfl⟩⟩
    rw [hindex]
    exact lt_nextOrderIndex htop e he
  | createOrder | patchEntry | delEntry | receive => trivial

theorem mem_orderEntriesOf {workspaceId orderId : Uuid} {e : OrderEntry} :
    e ∈ orderEntriesOf db workspaceId orderId ↔
      e ∈ db.orderEntries ∧ e.workspaceId = workspaceId ∧ e.orderId = orderId := by
  simp [orderEntriesOf]

theorem createEntries_positions {orderId : Uuid} {payloads : List OrderEntryIn} {idx : ℕ}
    (h : createEntries partArchived ctx db orderId idx payloads = .ok db') :
    db'.orderEntries.map OrderEntry.position = db.orderEntries.map OrderEntry.position ++
      (List.range' idx payloads.length).map fun i : ℕ => (ctx.workspaceId, orderId, (i : ℤ)) := by
  induction payloads generalizing ctx db idx with
  | nil =>
    obtain rfl := Except.ok.inj h
    simp
  | cons payload rest ih =>
    simp only [createEntries, Outcome.bind_ok, Db.insertOrderEntry, Outcome.check_ok,
      Outcome.pure_ok] at h
    obtain ⟨_, _, _, ⟨_, _, rfl⟩, hrest⟩ := h
    rw [ih hrest, List.length_cons, List.range'_succ, List.map_append, List.append_assoc]
    rfl

theorem createOrder_positioned (h : Positioned db) {payload : OrderCreateIn} {order : Order}
    (hcreate : createOrder partArchived ctx db payload = .ok (order, db')) : Positioned db' := by
  obtain ⟨horders, hfresh, rows, hentries, _, hrows, hids⟩ := createOrder_rows hcreate
  have hplaces : db'.orderEntries.map OrderEntry.position =
      db.orderEntries.map OrderEntry.position ++
        (List.range' 0 payload.entries.length).map fun i : ℕ => (ctx.workspaceId, order.id, (i : ℤ)) := by
    simp only [createOrder, Outcome.bind_ok, Db.insertOrder, Outcome.check_ok, Outcome.pure_ok,
      Prod.mk.injEq] at hcreate
    obtain ⟨_, ⟨_, _, rfl⟩, _, hcreated, rfl, rfl⟩ := hcreate
    have hplaces := createEntries_positions hcreated
    exact hplaces
  constructor
  case ids => exact hids h.ids
  case distinct =>
    rw [hplaces, List.nodup_append]
    refine ⟨h.distinct, ?_, ?_⟩
    · refine List.Nodup.map ?_ List.nodup_range'
      intro i j hij
      simpa using hij
    · intro place hplace new hnew heq
      obtain ⟨e, he, rfl⟩ := List.mem_map.mp hplace
      obtain ⟨i, _, rfl⟩ := List.mem_map.mp hnew
      -- an entry of the new order would belong to an order stored before
      obtain ⟨o, ho, hid⟩ := h.owned e he
      have horder : e.orderId = order.id := congrArg (fun place => place.2.1) heq
      exact hfresh o ho (hid.trans horder)
  case owned =>
    intro e he
    rw [hentries, List.mem_append] at he
    rw [horders]
    rcases he with he | he
    · obtain ⟨o, ho, hid⟩ := h.owned e he
      exact ⟨o, List.mem_append_left _ ho, hid⟩
    · exact ⟨order, by simp, ((hrows e he).1).symm⟩

theorem addEntry_positioned (h : Positioned db) {orderId : Uuid} {payload : OrderEntryIn}
    {entry : OrderEntry} (hadd : addEntry partArchived ctx db orderId payload = .ok (entry, db'))
    (htop : ((orderEntriesOf db ctx.workspaceId orderId).map (·.orderIndex)).max? ≠ some 0) :
    Positioned db' := by
  obtain ⟨order, horder, horders, hentries, horderId, _, hfresh⟩ := addEntry_rows hadd
  obtain ⟨hmem, hid⟩ := order_mem horder
  have hids : ∀ o ∈ db.orders, ∃ o' ∈ db'.orders, o'.id = o.id := by
    intro o ho
    rw [horders]
    refine ⟨_, List.mem_map_of_mem ho, ?_⟩
    split <;> rfl
  constructor
  case ids =>
    rw [hentries]
    exact nodup_ids_append h.ids hfresh
  case distinct =>
    rw [hentries, List.map_append, List.nodup_append]
    refine ⟨h.distinct, by simp, ?_⟩
    intro place hplace new hnew heq
    obtain ⟨e, he, rfl⟩ := List.mem_map.mp hplace
    have hnew : new = entry.position := by simpa using hnew
    rw [hnew, addEntry_index hadd] at heq
    have hworkspace : e.workspaceId = ctx.workspaceId := congrArg (fun place => place.1) heq
    have horderOf : e.orderId = orderId := congrArg (fun place => place.2.1) heq
    have hindex : e.orderIndex = nextOrderIndex (orderEntriesOf db ctx.workspaceId orderId) :=
      congrArg (fun place => place.2.2) heq
    have hlt := lt_nextOrderIndex htop e (mem_orderEntriesOf.mpr ⟨he, hworkspace, horderOf⟩)
    omega
  case owned =>
    intro e he
    rw [hentries, List.mem_append] at he
    rcases he with he | he
    · obtain ⟨o, ho, howner⟩ := h.owned e he
      obtain ⟨o', ho', hsame⟩ := hids o ho
      exact ⟨o', ho', hsame.trans howner⟩
    · obtain ⟨o', ho', hsame⟩ := hids order hmem
      have hentry : e = entry := by simpa using he
      exact ⟨o', ho', by rw [hsame, hid, hentry, horderId]⟩

theorem Positioned.map (h : Positioned db) {f : OrderEntry → OrderEntry}
    (hentries : db'.orderEntries = db.orderEntries.map f)
    (hids : db'.orders.map (·.id) = db.orders.map (·.id))
    (hkeep : ∀ e ∈ db.orderEntries, (f e).id = e.id ∧ (f e).position = e.position) :
    Positioned db' := by
  constructor
  case ids =>
    have hsame : (db.orderEntries.map f).map (·.id) = db.orderEntries.map (·.id) := by
      rw [List.map_map]
      exact List.map_congr_left fun e he => (hkeep e he).1
    rw [hentries, hsame]
    exact h.ids
  case distinct =>
    have hsame : (db.orderEntries.map f).map OrderEntry.position =
        db.orderEntries.map OrderEntry.position := by
      rw [List.map_map]
      exact List.map_congr_left fun e he => (hkeep e he).2
    rw [hentries, hsame]
    exact h.distinct
  case owned =>
    intro e' he'
    rw [hentries] at he'
    obtain ⟨e, he, rfl⟩ := List.mem_map.mp he'
    obtain ⟨o, ho, hid⟩ := h.owned e he
    have hid' : o.id ∈ db'.orders.map (·.id) := hids ▸ List.mem_map_of_mem ho
    obtain ⟨o', ho', hsame⟩ := List.mem_map.mp hid'
    have horder : (f e).orderId = e.orderId := congrArg (fun place => place.2.1) (hkeep e he).2
    exact ⟨o', ho', by rw [hsame, hid, horder]⟩

theorem patchEntry_positioned (h : Positioned db) {orderId entryId : Uuid}
    {payload : OrderEntryPatch} {row : OrderEntry}
    (hpatch : patchEntry partArchived ctx db orderId entryId payload = .ok (row, db')) :
    Positioned db' := by
  simp only [patchEntry, Outcome.bind_ok, Outcome.check_ok, Outcome.pure_ok, Prod.mk.injEq]
    at hpatch
  obtain ⟨order, _, e, he, _, _, _, _, _, hrow, rfl, rfl⟩ := hpatch
  have hmem := (getEntry_ok he).1
  simp only [patchedEntry, Outcome.bind_ok, Outcome.pure_ok] at hrow
  obtain ⟨_, _, rfl⟩ := hrow
  refine h.map rfl rfl ?_
  intro r hr
  dsimp only
  split
  next hid =>
    -- the ids are unique, so the row replaced is the one that was read
    have hsame : r = e := List.inj_on_of_nodup_map h.ids hr hmem hid
    subst hsame
    exact ⟨rfl, rfl⟩
  next => exact ⟨rfl, rfl⟩

theorem delEntry_positioned (h : Positioned db) {orderId entryId : Uuid}
    (hdel : delEntry ctx db orderId entryId = .ok db') : Positioned db' := by
  obtain ⟨horders, hsub⟩ := delEntry_rows hdel
  refine ⟨h.ids.sublist (hsub.map _), h.distinct.sublist (hsub.map _), ?_⟩
  intro e he
  rw [horders]
  exact h.owned e (hsub.subset he)

theorem receiveLines_positioned {order : Order} {serialTrackingOn : Bool} {receivedAt : Timestamp}
    {lines : List ReceiveLineIn} {written : List (Lot × StockEntry)} (h : Positioned db)
    (hreceive : receiveLines ctx db order serialTrackingOn receivedAt lines = .ok (written, db')) :
    Positioned db' := by
  induction lines generalizing ctx db written with
  | nil =>
    obtain ⟨_, rfl⟩ := Prod.mk.inj (Except.ok.inj hreceive)
    exact h
  | cons line rest ih =>
    simp only [receiveLines, Outcome.bind_ok, Prod.exists, Outcome.pure_ok, Prod.mk.injEq]
      at hreceive
    obtain ⟨_, _, db₁, hline, _, _, hrest, _, rfl⟩ := hreceive
    obtain ⟨horders, oe, _, hentries⟩ := receiveLine_entries hline
    refine ih (h.map hentries (by rw [horders]) ?_) hrest
    intro e _
    split <;> exact ⟨rfl, rfl⟩

theorem receive_positioned {order : Order} {payload : ReceiveIn} {result : ReceiveResult}
    (h : Positioned db) (hreceive : receive ctx db order payload = .ok (result, db')) :
    Positioned db' := by
  simp only [receive, Outcome.bind_ok, Prod.exists, Outcome.pure_ok, Prod.mk.injEq,
    Outcome.check_ok] at hreceive
  obtain ⟨_, _, _, db₁, hlines, _, rfl⟩ := hreceive
  have hdone := receiveLines_positioned h hlines
  refine hdone.map (List.map_id _).symm ?_ fun _ _ => ⟨rfl, rfl⟩
  simp only [Db.updateOrder, List.map_map]
  apply List.map_congr_left
  intro o _
  dsimp only [Function.comp_apply]
  split <;> rfl

theorem positioned_execOrder {call : OrderCall} (h : Positioned db) (htop : TopNotZero call db)
    (hexec : execOrder call db = .ok db') : Positioned db' := by
  obtain ⟨ctx, partArchived, request⟩ := call
  cases request with
  | createOrder payload =>
    obtain ⟨⟨order, _⟩, hcreate, rfl⟩ := Outcome.map_ok.mp hexec
    exact createOrder_positioned h hcreate
  | addEntry orderId payload =>
    obtain ⟨⟨entry, _⟩, hadd, rfl⟩ := Outcome.map_ok.mp hexec
    exact addEntry_positioned h hadd htop
  | patchEntry orderId entryId payload =>
    obtain ⟨⟨row, _⟩, hpatch, rfl⟩ := Outcome.map_ok.mp hexec
    exact patchEntry_positioned h hpatch
  | delEntry orderId entryId => exact delEntry_positioned h hexec
  | receive orderId payload =>
    obtain ⟨⟨result, _⟩, hreceive, rfl⟩ := Outcome.map_ok.mp hexec
    simp only [receiveOrder, Outcome.bind_ok, Outcome.mapError_ok] at hreceive
    obtain ⟨order, _, hreceive⟩ := hreceive
    exact receive_positioned h hreceive

/-- The name `receive` gives a lot of the entry when the line has none. -/
def defaultLotName (order : Order) (e : OrderEntry) : String := s!"{order.name}#{e.orderIndex + 1}"

/-- The entries of every order have distinct indexes and distinct default lot names. -/
def Distinguished (db : Db) : Prop :=
  ∀ o ∈ db.orders, ((orderEntriesOf db o.workspaceId o.id).map (·.orderIndex)).Nodup ∧
    ((orderEntriesOf db o.workspaceId o.id).map (defaultLotName o)).Nodup

instance (db : Db) : Decidable (Distinguished db) :=
  inferInstanceAs (Decidable (∀ o ∈ db.orders, _ ∧ _))

theorem lotName_injective (name : String) :
    Function.Injective fun index : ℤ => s!"{name}#{index + 1}" := by
  intro i j h
  have hchars := congrArg String.toList h
  simp only [String.toList_append, List.append_cancel_left_eq] at hchars
  have hindex : i + 1 = j + 1 := by
    apply Int.repr_injective
    simpa [String.toList_inj] using hchars
  omega

theorem Positioned.distinguished (h : Positioned db) : Distinguished db := by
  intro o _
  have hindexes : ((orderEntriesOf db o.workspaceId o.id).map (·.orderIndex)).Nodup := by
    have hplaces : ((orderEntriesOf db o.workspaceId o.id).map OrderEntry.position).Nodup :=
      h.distinct.sublist (List.filter_sublist.map _)
    have hmap : (orderEntriesOf db o.workspaceId o.id).map OrderEntry.position =
        ((orderEntriesOf db o.workspaceId o.id).map (·.orderIndex)).map
          fun index => (o.workspaceId, o.id, index) := by
      rw [List.map_map]
      apply List.map_congr_left
      intro e he
      obtain ⟨_, hworkspace, horder⟩ := mem_orderEntriesOf.mp he
      rw [OrderEntry.position, hworkspace, horder]
      rfl
    rw [hmap] at hplaces
    exact hplaces.of_map
  refine ⟨hindexes, ?_⟩
  have hnames : (orderEntriesOf db o.workspaceId o.id).map (defaultLotName o) =
      ((orderEntriesOf db o.workspaceId o.id).map (·.orderIndex)).map
        fun index => s!"{o.name}#{index + 1}" := by
    rw [List.map_map]
    rfl
  rw [hnames]
  exact hindexes.map (lotName_injective o.name)

/-- In every run of order requests from a database without order lines in which
no accepted `add_entry` meets an order whose highest index is 0, the lines of every order have
distinct indexes and default lot names, and `add_entry` puts its line last. -/
theorem positions_of_run {db₀ : Db} (hentries : db₀.orderEntries = []) {calls : List OrderCall}
    (h : Outcome.Meets execOrder (Outcome.Accepted execOrder TopNotZero) db₀ calls) :
    Distinguished (Outcome.run execOrder db₀ calls) ∧ Outcome.Meets execOrder AddsLast db₀ calls := by
  have hstart : Positioned db₀ := by
    refine ⟨by simp [hentries], by simp [hentries], ?_⟩
    simp [hentries]
  have hrun : Positioned (Outcome.run execOrder db₀ calls) :=
    Outcome.run_invariant_of_accepted (fun _ _ _ hI htop hexec => positioned_execOrder hI htop hexec)
      hstart h
  exact ⟨hrun.distinguished, h.mono fun _ _ htop => addsLast_of_top htop⟩

theorem sampleLine_pos (n : ℕ) : (1 : ℤ) ≤ n + 1 := by omega

theorem sampleName_length : 1 ≤ "po".length ∧ "po".length ≤ 200 := by decide

def sampleLine (partId : Uuid) (n : ℕ) : OrderEntryIn :=
  ⟨some partId, n + 1, none, none, sampleLine_pos n⟩

/-- Two bolts in one order, a nut added, the first bolt deleted and a washer added. -/
def samplePositionCalls : List OrderCall :=
  [⟨sampleCtx 100, fun _ => false,
      .createOrder ⟨"po", none, [sampleLine 10 4, sampleLine 10 1], sampleName_length⟩⟩,
    ⟨sampleCtx 200, fun _ => false, .addEntry 100 (sampleLine 11 2)⟩,
    ⟨sampleCtx 300, fun _ => false, .delEntry 100 104⟩,
    ⟨sampleCtx 400, fun _ => false, .addEntry 100 (sampleLine 11 0)⟩]

theorem positions_of_run_sample :
    Distinguished (Outcome.run execOrder sampleDb samplePositionCalls) ∧
      Outcome.Meets execOrder AddsLast sampleDb samplePositionCalls := by
  refine positions_of_run rfl ⟨fun _ => trivial, fun _ => ?_, fun _ => trivial, fun _ => ?_, trivial⟩
  · show _ ≠ _
    decide
  · show _ ≠ _
    decide

/-- An order with one line, and a second one added: both have index 0. -/
theorem second_entry_collides : ¬ Distinguished (Outcome.run execOrder sampleDb
    [⟨sampleCtx 100, fun _ => false, sampleOrder⟩,
      ⟨sampleCtx 300, fun _ => false, .addEntry 100 ⟨some 11, 3, none, none, by decide⟩⟩]) := by
  decide

end StockManager
