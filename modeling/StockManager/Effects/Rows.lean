import StockManager.Model.Routes

/-! # What the stock operations write

For each operation, the rows it appends and what its checks established about
them. Everything later is derived from these lemmas, never from the operations. -/

namespace StockManager

variable {db db' : Db} {id : Uuid} {ctx : Ctx}

theorem exists_of_forall₂ {α β : Type} {R : α → β → Prop} {as : List α} {bs : List β}
    (h : List.Forall₂ R as bs) {b : β} (hb : b ∈ bs) : ∃ a ∈ as, R a b := by
  induction h with
  | nil => cases hb
  | cons hR _ ih =>
    rcases List.mem_cons.mp hb with rfl | hb
    · exact ⟨_, List.mem_cons_self .., hR⟩
    · obtain ⟨a, ha, hRa⟩ := ih hb
      exact ⟨a, List.mem_cons_of_mem _ ha, hRa⟩

theorem insertLot_ok {row : Lot} :
    db.insertLot row = .ok db' ↔
      (∀ r ∈ db.lots, r.id ≠ row.id) ∧ db' = { db with lots := db.lots ++ [row] } := by
  rw [Db.insertLot, Outcome.check_bind_ok, Outcome.pure_ok]
  exact and_congr_right fun _ => eq_comm

theorem insertStockEntry_ok {row : StockEntry} :
    db.insertStockEntry row = .ok db' ↔ (∀ r ∈ db.stockEntries, r.id ≠ row.id) ∧
      db' = { db with stockEntries := db.stockEntries ++ [row] } := by
  rw [Db.insertStockEntry, Outcome.check_bind_ok, Outcome.pure_ok]
  exact and_congr_right fun _ => eq_comm

theorem partInWorkspace_ok {workspaceId partId : Uuid} {notFound : Err} {part : Part} :
    partInWorkspace db workspaceId partId notFound = .ok part ↔
      db.part partId = some part ∧ part.workspaceId = workspaceId := by
  simp only [partInWorkspace, Outcome.orRaise_ok, belongs_eq_some]

theorem part_id {part : Part} (h : db.part id = some part) :
    part.id = id := by
  simpa using List.find?_some h

theorem lot_id {lot : Lot} (h : db.lot id = some lot) : lot.id = id := by
  simpa using List.find?_some h

theorem getBuild_ok {build : Build} :
    getBuild ctx db id = .ok build ↔
      db.build id = some build ∧ build.workspaceId = ctx.workspaceId := by
  simp only [getBuild, Outcome.orRaise_ok, belongs_eq_some]

theorem getProject_ok {project : Project} :
    getProject ctx db id = .ok project ↔
      db.project id = some project ∧ project.workspaceId = ctx.workspaceId := by
  simp only [getProject, Outcome.orRaise_ok, belongs_eq_some]

theorem getStage_ok {build : Build} {stage : BuildStage} :
    getStage ctx db build id = .ok stage ↔ db.buildStage id = some stage ∧
      stage.workspaceId = ctx.workspaceId ∧ stage.buildId = build.id ∧
      stage.archivedAt = none := by
  simp only [getStage, Outcome.bind_ok, Outcome.orRaise_ok, belongs_eq_some, Outcome.check_ok,
    Outcome.pure_ok, exists_const]
  constructor
  · rintro ⟨s, ⟨hs, hws⟩, ⟨hbuild, harch⟩, rfl⟩
    exact ⟨hs, hws, hbuild, harch⟩
  · rintro ⟨hs, hws, hbuild, harch⟩
    exact ⟨stage, ⟨hs, hws⟩, ⟨hbuild, harch⟩, rfl⟩

theorem insertBuild_ok {row : Build} :
    db.insertBuild row = .ok db' ↔
      (∀ r ∈ db.builds, r.id ≠ row.id) ∧ db' = { db with builds := db.builds ++ [row] } := by
  rw [Db.insertBuild, Outcome.check_bind_ok, Outcome.pure_ok]
  exact and_congr_right fun _ => eq_comm

/-- The optional storage and lot of a request are rows of the workspace. -/
structure RefsIn (db : Db) (workspaceId : Uuid) (storageLocationId lotId : Option Uuid) : Prop where
  storage : ∀ id ∈ storageLocationId, ∃ s, db.storageLocation id = some s ∧
    s.workspaceId = workspaceId
  lot : ∀ id ∈ lotId, ∃ l, db.lot id = some l ∧ l.workspaceId = workspaceId

theorem refsIn_of_checks {workspaceId : Uuid} {storageLocationId lotId : Option Uuid}
    {e₁ e₂ : Err} {u₁ u₂ : Unit}
    (hs : checkStorageRef db workspaceId storageLocationId e₁ = .ok u₁)
    (hl : checkLotRef db workspaceId lotId e₂ = .ok u₂) :
    RefsIn db workspaceId storageLocationId lotId := by
  simp only [checkStorageRef, checkLotRef, Outcome.check_ok, Option.isSome_iff_exists,
    belongs_eq_some] at hs hl
  exact ⟨hs, hl⟩

/-- A lot that an operation creates for the rows of a part. -/
structure FreshLot (db : Db) (workspaceId partId : Uuid) (lot : Lot) : Prop where
  workspace : lot.workspaceId = workspaceId
  part : lot.partId = some partId
  fresh : ∀ r ∈ db.lots, r.id ≠ lot.id

/-- An on-hand row that brings `quantity` of a part in, with the lot it creates, if any. -/
structure Produced (db : Db) (workspaceId partId : Uuid) (storageLocationId : Option Uuid)
    (quantity : Decimal) (lots : List Lot) (e : StockEntry) : Prop where
  bucket : e.bucket = ⟨workspaceId, some partId, (lots.head?).map (·.id), storageLocationId⟩
  status : e.status = .onHand
  delta : e.quantityDelta = quantity
  lots : lots = [] ∨ ∃ lot, lots = [lot] ∧ FreshLot db workspaceId partId lot
  fresh : ∀ r ∈ db.stockEntries, r.id ≠ e.id
  admitted : ∀ id ∈ storageLocationId, Admits db workspaceId id partId

/-- An on-hand row that takes `quantity` out of a bucket that holds it. -/
structure Drawn (db : Db) (b : Bucket) (quantity : Decimal) (e : StockEntry) : Prop where
  bucket : e.bucket = b
  status : e.status = .onHand
  delta : e.quantityDelta = -quantity
  available : quantity ≤ balance db.stockEntries b
  fresh : ∀ r ∈ db.stockEntries, r.id ≠ e.id
  refs : RefsIn db b.workspaceId b.storageLocationId b.lotId

/-- A move pair: the source bucket gives `quantity`, the location `dest` takes it,
in the source lot or in a child lot the move creates. -/
structure MovedPair (db : Db) (workspaceId partId : Uuid) (source : Option Uuid × Option Uuid)
    (dest : Uuid) (quantity : Decimal) (lots : List Lot) (outEntry inEntry : StockEntry) :
    Prop where
  outBucket : outEntry.bucket = ⟨workspaceId, some partId, source.2, source.1⟩
  inBucket : inEntry.bucket =
    ⟨workspaceId, some partId, if lots = [] then source.2 else (lots.head?).map (·.id), some dest⟩
  outStatus : outEntry.status = .onHand
  inStatus : inEntry.status = .onHand
  outDelta : outEntry.quantityDelta = -quantity
  inDelta : inEntry.quantityDelta = quantity
  available : quantity ≤ balance db.stockEntries outEntry.bucket
  lots : lots = [] ∨ ∃ lot, lots = [lot] ∧ FreshLot db workspaceId partId lot
  outFresh : ∀ r ∈ db.stockEntries, r.id ≠ outEntry.id
  inFresh : ∀ r ∈ db.stockEntries, r.id ≠ inEntry.id
  idsDiffer : outEntry.id ≠ inEntry.id
  refs : RefsIn db workspaceId source.1 source.2
  admitted : Admits db workspaceId dest partId

/-- The row of a count correction: the bucket is set to `actual`. -/
structure Recounted (db : Db) (b : Bucket) (actual : Decimal) (e : StockEntry) : Prop where
  bucket : e.bucket = b
  status : e.status = .onHand
  delta : e.quantityDelta = actual - balance db.stockEntries b
  fresh : ∀ r ∈ db.stockEntries, r.id ≠ e.id
  refs : RefsIn db b.workspaceId b.storageLocationId b.lotId

end StockManager

/-! ## Rows of `receive` (domain/orders/service.py) -/

namespace StockManager

theorem orderEntriesOf_update {db db' : Db} {workspaceId orderId id : Uuid}
    (f : OrderEntry → OrderEntry)
    (heq : db'.orderEntries = db.orderEntries.map fun r => if r.id = id then f r else r)
    (hf : ∀ e, (f e).id = e.id ∧ (f e).workspaceId = e.workspaceId ∧ (f e).orderId = e.orderId ∧
      (f e).partId = e.partId) {oe : OrderEntry}
    (h : oe ∈ orderEntriesOf db' workspaceId orderId) :
    ∃ old ∈ orderEntriesOf db workspaceId orderId, old.id = oe.id ∧ old.partId = oe.partId := by
  simp only [orderEntriesOf, heq, List.mem_filter, List.mem_map, decide_eq_true_eq] at h ⊢
  obtain ⟨⟨old, hold, rfl⟩, hws, horder⟩ := h
  refine ⟨old, ?_⟩
  by_cases hid : old.id = id
  · simp only [hid, if_true, (hf old).1, (hf old).2.1, (hf old).2.2.1, (hf old).2.2.2]
      at hws horder ⊢
    exact ⟨⟨hold, hws, horder⟩, trivial, trivial⟩
  · simp only [hid, if_false] at hws horder ⊢
    exact ⟨⟨hold, hws, horder⟩, trivial, trivial⟩

/-- A received line appends a lot and an on-hand row for the part of its order entry. -/
theorem receiveLine_rows {ctx : Ctx} {db db' : Db} {order : Order} {serialTrackingOn : Bool}
    {receivedAt : Timestamp} {line : ReceiveLineIn} {lot : Lot} {e : StockEntry}
    (h : receiveLine ctx db order serialTrackingOn receivedAt line = .ok ((lot, e), db')) :
    ∃ oe ∈ orderEntriesOf db ctx.workspaceId order.id, oe.id = line.orderEntryId ∧
      ∃ partId, oe.partId = some partId ∧
      (∀ x ∈ orderEntriesOf db' ctx.workspaceId order.id,
        ∃ y ∈ orderEntriesOf db ctx.workspaceId order.id, y.id = x.id ∧ y.partId = x.partId) ∧
      ∃ orderEntries, db' = { db with
        lots := db.lots ++ [lot]
        stockEntries := db.stockEntries ++ [e]
        orderEntries := orderEntries } ∧
      Produced db ctx.workspaceId partId line.storageLocationId line.quantity [lot] e := by
  simp only [receiveLine, Outcome.bind_ok, Outcome.check_ok, exists_const, Outcome.pure_ok,
    Outcome.orRaise_ok, partInWorkspace_ok, insertLot_ok, insertStockEntry_ok,
    Prod.mk.injEq] at h
  obtain ⟨oe, hoe, partId, hpartId, _, part, ⟨hpart, _⟩, _, _, storage, hstorage, _,
    ⟨hlotFresh, rfl⟩, _, ⟨hfresh, rfl⟩, ⟨rfl, rfl⟩, rfl⟩ := h
  rw [part_id hpart] at hstorage
  obtain ⟨hid, hadmits⟩ := destination_ok hstorage
  refine ⟨oe, List.mem_of_find?_eq_some hoe, by simpa using List.find?_some hoe, partId, hpartId,
    ?_, _, rfl, ?_⟩
  · intro x hx
    exact orderEntriesOf_update (fun e => { e with
      quantityReceived := e.quantityReceived + line.quantity
      updatedBy := ctx.userId }) rfl (fun _ => ⟨rfl, rfl, rfl, rfl⟩) hx
  constructor
  case bucket => simp [StockEntry.bucket, newStockEntry, part_id hpart, hid]
  case status => rfl
  case delta => rfl
  case lots => exact Or.inr ⟨_, rfl, rfl, by simp [newLot, part_id hpart], hlotFresh⟩
  case fresh => exact hfresh
  case admitted => exact hadmits

end StockManager

/-! ## Look-ups after a write

What `db.get(Model, id)` finds after an attribute write or an insert. -/

namespace StockManager

theorem find_update {α : Type} {key : α → Uuid} {id : Uuid} {f : α → α}
    (hf : ∀ r, key r = id → key (f r) = id) (rows : List α) (k : Uuid) :
    (rows.map fun r => if key r = id then f r else r).find? (fun r => key r = k) =
      (rows.find? fun r => key r = k).map fun r => if key r = id then f r else r := by
  have hkey : ∀ r, key (if key r = id then f r else r) = key r := by
    intro r
    split
    next h => rw [hf r h, h]
    next => rfl
  rw [List.find?_map]
  congr 2
  funext r
  simp only [Function.comp_apply, hkey]

theorem find_written {α : Type} {key : α → Uuid} {id k : Uuid} {f : α → α} {rows : List α}
    {r r' : α} (hr : rows.find? (fun x => key x = id) = some r)
    (hr' : (rows.map fun x => if key x = id then f x else x).find? (fun x => key x = k) = some r')
    (hf : ∀ x, key x = id → key (f x) = id) :
    (k = id ∧ r' = f r) ∨ (k ≠ id ∧ rows.find? (fun x => key x = k) = some r') := by
  rw [find_update hf] at hr'
  obtain ⟨x, hx, hr'⟩ := Option.map_eq_some_iff.mp hr'
  have hkey : key x = k := by simpa using List.find?_some hx
  by_cases hk : k = id
  · left
    subst hk
    obtain rfl : r = x := Option.some.inj (hr.symm.trans hx)
    exact ⟨rfl, by rw [← hr', if_pos hkey]⟩
  · right
    rw [if_neg (hkey ▸ hk)] at hr'
    exact ⟨hk, hr' ▸ hx⟩

theorem find_kept {α β : Type} {key : α → Uuid} {id : Uuid} {f : α → α} {rows : List α} {r : α}
    (g : α → β) (hr : rows.find? (fun x => key x = id) = some r)
    (hf : ∀ x, key x = id → key (f x) = id) (hg : g (f r) = g r) {k : Uuid} {x : α}
    (hx : rows.find? (fun y => key y = k) = some x) :
    ∃ x', (rows.map fun y => if key y = id then f y else y).find? (fun y => key y = k) = some x' ∧
      g x' = g x := by
  rw [find_update hf, hx]
  refine ⟨_, rfl, ?_⟩
  beta_reduce
  split
  next hid =>
    have hkey : key x = k := by simpa using List.find?_some hx
    have hk : k = id := hkey.symm.trans hid
    subst hk
    obtain rfl : r = x := Option.some.inj (hr.symm.trans hx)
    exact hg
  next => rfl

variable {db : Db} {id k : Uuid}

theorem storageLocation_append (row : StorageLocation) :
    ({ db with storageLocations := db.storageLocations ++ [row] } : Db).storageLocation k =
      (db.storageLocation k).or (if row.id = k then some row else none) := by
  simp only [Db.storageLocation, List.find?_append, List.find?_singleton, decide_eq_true_eq]

theorem lot_append {lots : List Lot} {lot : Lot} (h : db.lot k = some lot) :
    (db.lots ++ lots).find? (fun r => r.id = k) = some lot := by
  rw [List.find?_append]
  simp only [Db.lot] at h
  rw [h, Option.some_or]

theorem build_id {b : Build} (h : db.build id = some b) : b.id = id := by
  simpa using List.find?_some h

theorem buildStage_id {s : BuildStage} (h : db.buildStage id = some s) : s.id = id := by
  simpa using List.find?_some h

theorem build_update {f : Build → Build} (hf : ∀ r, r.id = id → (f r).id = id) :
    (db.updateBuild id f).build k = (db.build k).map fun r => if r.id = id then f r else r :=
  find_update hf db.builds k

theorem build_append (row : Build) :
    ({ db with builds := db.builds ++ [row] } : Db).build k =
      (db.build k).or (if row.id = k then some row else none) := by
  simp only [Db.build, List.find?_append, List.find?_singleton, decide_eq_true_eq]

theorem build_written {f : Build → Build} {b b' : Build} (hb : db.build id = some b)
    (hb' : (db.updateBuild id f).build k = some b') (hf : ∀ r, r.id = id → (f r).id = id) :
    (k = id ∧ b' = f b) ∨ (k ≠ id ∧ db.build k = some b') := find_written hb hb' hf

theorem build_kept {f : Build → Build} {b r : Build} (hb : db.build id = some b)
    (hf : ∀ r, r.id = id → (f r).id = id) (hws : (f b).workspaceId = b.workspaceId)
    (hr : db.build k = some r) :
    ∃ r', (db.updateBuild id f).build k = some r' ∧ r'.workspaceId = r.workspaceId :=
  find_kept Build.workspaceId hb hf hws hr

theorem storageLocation_written {s s' : StorageLocation} {f : StorageLocation → StorageLocation}
    (hs : db.storageLocation id = some s)
    (hs' : (db.updateStorageLocation id f).storageLocation k = some s')
    (hf : ∀ r, r.id = id → (f r).id = id) :
    (k = id ∧ s' = f s) ∨ (k ≠ id ∧ db.storageLocation k = some s') := find_written hs hs' hf

end StockManager
