import StockManager.Effects.Rows

/-! # Rows of the stock operations

`add_stock`, `remove_stock`, the moves and `adjust_stock` (domain/stock/service.py). -/

namespace StockManager

variable {ctx : Ctx} {db db' : Db} {outEntry inEntry : StockEntry} {part : Part}
  {quantity : Decimal} {destId : Uuid}
variable {payload : AddStockIn} {e : StockEntry} {partId : Uuid}
  {storageId lotId buildId buildStageId : Option Uuid} {comments : Option String}

theorem addStockLot_ok {lot : Option Lot} (hid : part.id = payload.partId)
    (h : addStockLot ctx db payload part = .ok (lot, db')) :
    db' = { db with lots := db.lots ++ lot.toList } ∧
      ∀ l ∈ lot, FreshLot db ctx.workspaceId payload.partId l := by
  simp only [addStockLot] at h
  split at h
  next =>
    simp only [Outcome.bind_ok, Outcome.pure_ok, insertLot_ok, Prod.mk.injEq] at h
    obtain ⟨_, _, db₁, ⟨hfresh, rfl⟩, rfl, rfl⟩ := h
    refine ⟨rfl, ?_⟩
    rintro l hl
    obtain rfl := Option.mem_some_iff.mp hl
    exact ⟨rfl, by simp [newLot, hid], hfresh⟩
  next =>
    simp only [Outcome.pure_ok, Prod.mk.injEq] at h
    obtain ⟨rfl, rfl⟩ := h
    exact ⟨by simp, fun l hl => by cases hl⟩

theorem addStock_rows (h : addStock ctx db payload = .ok (e, db')) :
    ∃ lots, db' = { db with
        lots := db.lots ++ lots
        stockEntries := db.stockEntries ++ [e] } ∧
      Produced db ctx.workspaceId payload.partId payload.storageLocationId payload.quantity
        lots e := by
  simp only [addStock, Outcome.bind_ok, Outcome.check_ok, exists_const, Outcome.pure_ok,
    partInWorkspace_ok, insertStockEntry_ok, Prod.exists, Prod.mk.injEq] at h
  obtain ⟨part, ⟨hpart, hws⟩, storage, hstorage, _, _, _, lot, db₁, hlot, _, ⟨hfresh, rfl⟩, rfl,
    rfl⟩ := h
  obtain ⟨rfl, hlots⟩ := addStockLot_ok (part_id hpart) hlot
  obtain ⟨hid, hadmits⟩ := destination_ok hstorage
  refine ⟨lot.toList, rfl, ?_⟩
  constructor
  case bucket => cases lot <;> simp [StockEntry.bucket, newStockEntry, part_id hpart, hid]
  case status => rfl
  case delta => rfl
  case lots =>
    cases lot with
    | none => exact Or.inl rfl
    | some l => exact Or.inr ⟨l, rfl, hlots l rfl⟩
  case fresh => exact hfresh
  case admitted => exact hadmits

theorem removeStock_rows {payload : RemoveStockIn} (h : removeStock ctx db payload = .ok (e, db')) :
    db' = { db with stockEntries := db.stockEntries ++ [e] } ∧
      Drawn db ⟨ctx.workspaceId, some payload.partId, payload.lotId, payload.storageLocationId⟩
        payload.quantity e := by
  simp only [removeStock, Outcome.bind_ok, Outcome.check_ok, exists_const, Outcome.pure_ok,
    partInWorkspace_ok, insertStockEntry_ok, Prod.mk.injEq] at h
  obtain ⟨part, ⟨hpart, _⟩, _, hsref, _, hlref, havail, _, ⟨hfresh, rfl⟩, rfl, rfl⟩ := h
  rw [currentQuantity_bucket, part_id hpart] at havail
  refine ⟨rfl, ?_⟩
  constructor
  case bucket => simp [StockEntry.bucket, newStockEntry, part_id hpart]
  case status => rfl
  case delta => rfl
  case available => exact havail
  case fresh => exact hfresh
  case refs => exact refsIn_of_checks hsref hlref

/-- What `_prepare_move` has checked when it returns. -/
structure Prepared (ctx : Ctx) (db : Db) (partId : Uuid) (quantity : Decimal)
    (source : Option Uuid × Option Uuid) (destId : Uuid) (part : Part)
    (dest : StorageLocation) : Prop where
  part : part.id = partId
  dest : dest.id = destId
  refs : RefsIn db ctx.workspaceId source.1 source.2
  available : quantity ≤
    balance db.stockEntries ⟨ctx.workspaceId, some partId, source.2, source.1⟩
  admitted : Admits db ctx.workspaceId destId partId

theorem prepareMove_ok {dest : StorageLocation}
    (h : prepareMove ctx db partId quantity storageId lotId destId = .ok (part, dest)) :
    Prepared ctx db partId quantity (storageId, lotId) destId part dest := by
  simp only [prepareMove, Outcome.bind_ok, Outcome.check_ok, exists_const, Outcome.pure_ok,
    partInWorkspace_ok, openLocation_ok, Prod.mk.injEq] at h
  obtain ⟨p, ⟨hpart, _⟩, d, ⟨hd, hws, harch, hfull⟩, _, hsref, _, hlref, havail, _, hcons, rfl,
    rfl⟩ := h
  rw [currentQuantity_bucket] at havail
  exact ⟨part_id hpart, storageLocation_id hd, refsIn_of_checks hsref hlref, havail,
    admits_of_enforce hd hws harch hfull hcons⟩

theorem map_update_append {rows : List StockEntry} {id : Uuid}
    (f : StockEntry → StockEntry) (hid : outEntry.id = id) (hout : ∀ r ∈ rows, r.id ≠ id)
    (hin : inEntry.id ≠ id) :
    (rows ++ [outEntry] ++ [inEntry]).map (fun r => if r.id = id then f r else r) =
      rows ++ [f outEntry, inEntry] := by
  have hrows : rows.map (fun r => if r.id = id then f r else r) = rows := by
    conv_rhs => rw [← List.map_id rows]
    apply List.map_congr_left
    intro r hr
    simp [hout r hr]
  rw [List.map_append, List.map_append, hrows]
  simp [hid, hin]

theorem writeMovePair_rows {storageId lotId destLotId : Option Uuid}
    (h : writeMovePair ctx db part quantity storageId lotId destId destLotId comments buildId
      buildStageId = .ok ((outEntry, inEntry), db')) :
    db' = { db with stockEntries := db.stockEntries ++ [outEntry, inEntry] } ∧
      outEntry.bucket = ⟨ctx.workspaceId, some part.id, lotId, storageId⟩ ∧
      inEntry.bucket = ⟨ctx.workspaceId, some part.id, destLotId, some destId⟩ ∧
      outEntry.status = .onHand ∧ inEntry.status = .onHand ∧
      outEntry.quantityDelta = -quantity ∧ inEntry.quantityDelta = quantity ∧
      (∀ r ∈ db.stockEntries, r.id ≠ outEntry.id) ∧ (∀ r ∈ db.stockEntries, r.id ≠ inEntry.id) ∧
      outEntry.id ≠ inEntry.id := by
  simp only [writeMovePair, Outcome.bind_ok, Outcome.pure_ok, insertStockEntry_ok,
    Prod.mk.injEq] at h
  obtain ⟨_, ⟨hout, rfl⟩, _, ⟨hin, rfl⟩, ⟨rfl, rfl⟩, rfl⟩ := h
  simp only [List.mem_append, List.mem_singleton, or_imp, forall_and, forall_eq] at hin
  have hids : (ctx.child 0).uuid4 ≠ (ctx.child 1).uuid4 := hin.2
  refine ⟨?_, rfl, rfl, rfl, rfl, rfl, rfl, hout, hin.1, hids⟩
  simp only [Db.updateStockEntry, Db.mk.injEq, true_and, and_true]
  exact map_update_append (fun r => { r with relatedEntryId := some (ctx.child 1).uuid4 }) rfl
    hout hids.symm

/-- A move appends a row out of one bucket and a row into another. -/
theorem moveQuantity_rows
    (h : moveQuantity ctx db partId quantity storageId lotId destId comments buildId
      buildStageId = .ok ((outEntry, inEntry), db')) :
    db' = { db with stockEntries := db.stockEntries ++ [outEntry, inEntry] } ∧
      MovedPair db ctx.workspaceId partId (storageId, lotId) destId quantity [] outEntry
        inEntry := by
  simp only [moveQuantity, Outcome.bind_ok, Prod.exists] at h
  obtain ⟨part, dest, hprep, hpair⟩ := h
  have hp := prepareMove_ok hprep
  obtain ⟨hdb, houtb, hinb, houts, hins, houtd, hind, houtf, hinf, hids⟩ :=
    writeMovePair_rows hpair
  rw [hp.part] at houtb hinb
  refine ⟨hdb, ?_⟩
  constructor
  case outBucket => exact houtb
  case inBucket => simpa using hinb
  case available => rw [houtb]; exact hp.available
  case lots => exact Or.inl rfl
  case refs => exact hp.refs
  case admitted => exact hp.admitted
  all_goals assumption

theorem moveStock_rows {payload : MoveStockIn}
    (h : moveStock ctx db payload = .ok ((outEntry, inEntry), db')) :
    ∃ lots, db' = { db with
        lots := db.lots ++ lots
        stockEntries := db.stockEntries ++ [outEntry, inEntry] } ∧
      (lots ≠ [] ↔ payload.splitLot = true ∧ payload.sourceLotId.isSome) ∧
      (∀ lot ∈ lots, lot.parentLotId = payload.sourceLotId) ∧
      MovedPair db ctx.workspaceId payload.partId
        (payload.sourceStorageLocationId, payload.sourceLotId)
        payload.destinationStorageLocationId payload.quantity lots outEntry inEntry := by
  simp only [moveStock, Outcome.bind_ok, Prod.exists] at h
  obtain ⟨part, dest, hprep, hrest⟩ := h
  have hp := prepareMove_ok hprep
  split at hrest
  next sourceLotId hsplit hlot =>
    simp only [Outcome.bind_ok, insertLot_ok] at hrest
    obtain ⟨srcLot, hsrc, _, ⟨hfresh, rfl⟩, hpair⟩ := hrest
    obtain ⟨hdb, houtb, hinb, houts, hins, houtd, hind, houtf, hinf, hids⟩ :=
      writeMovePair_rows hpair
    rw [hp.part] at houtb hinb
    rw [hp.dest] at hinb
    refine ⟨[splitLot ctx payload srcLot], hdb, by simp [hsplit, hlot], ?_, ?_⟩
    · simp only [Outcome.orRaise_ok, belongs_eq_some] at hsrc
      simp [splitLot, hlot, lot_id hsrc.1]
    constructor
    case outBucket => rw [hlot]; exact houtb
    case inBucket => simpa using hinb
    case available =>
      rw [houtb]
      simpa [hlot] using hp.available
    case lots => exact Or.inr ⟨_, rfl, rfl, rfl, hfresh⟩
    case refs => exact hp.refs
    case admitted => exact hp.admitted
    all_goals assumption
  next sourceLotId hnosplit =>
    obtain ⟨hdb, houtb, hinb, houts, hins, houtd, hind, houtf, hinf, hids⟩ :=
      writeMovePair_rows hrest
    rw [hp.part] at houtb hinb
    rw [hp.dest] at hinb
    refine ⟨[], by simpa using hdb, ?_, by simp, ?_⟩
    · simp only [ne_eq, not_true_eq_false, false_iff, not_and, Bool.not_eq_true,
        Option.isSome_eq_false_iff, Option.isNone_iff_eq_none]
      intro htrue
      cases hlot : payload.sourceLotId with
      | none => rfl
      | some l => exact absurd hlot (hnosplit l htrue)
    · constructor
      case outBucket => exact houtb
      case inBucket => simpa using hinb
      case available => rw [houtb]; exact hp.available
      case lots => exact Or.inl rfl
      case refs => exact hp.refs
      case admitted => exact hp.admitted
      all_goals assumption

theorem adjustStock_rows {payload : AdjustStockIn}
    {e : Option StockEntry} (h : adjustStock ctx db payload = .ok (e, db')) :
    let b : Bucket :=
      ⟨ctx.workspaceId, some payload.partId, payload.lotId, payload.storageLocationId⟩
    db' = { db with stockEntries := db.stockEntries ++ e.toList } ∧
      (e = none ↔ balance db.stockEntries b = payload.actualQuantity) ∧
      ∀ r ∈ e, Recounted db b payload.actualQuantity r := by
  intro b
  simp only [adjustStock, Outcome.bind_ok, partInWorkspace_ok] at h
  obtain ⟨part, ⟨hpart, _⟩, _, hsref, _, hlref, hrest⟩ := h
  rw [currentQuantity_bucket, part_id hpart] at hrest
  split at hrest
  next hzero =>
    simp only [Outcome.pure_ok, Prod.mk.injEq] at hrest
    obtain ⟨rfl, rfl⟩ := hrest
    refine ⟨by simp, ?_, fun r hr => by cases hr⟩
    simp only [true_iff]
    exact (sub_eq_zero.mp hzero).symm
  next hne =>
    simp only [Outcome.bind_ok, Outcome.pure_ok, insertStockEntry_ok, Prod.mk.injEq] at hrest
    obtain ⟨_, ⟨hfresh, rfl⟩, rfl, rfl⟩ := hrest
    refine ⟨rfl, ?_, ?_⟩
    · simp only [reduceCtorEq, false_iff]
      exact fun heq => hne (sub_eq_zero.mpr heq.symm)
    · intro r hr
      obtain rfl := Option.mem_some_iff.mp hr
      constructor
      case bucket => simp [StockEntry.bucket, newStockEntry, b]
      case status => rfl
      case delta => rfl
      case fresh => exact hfresh
      case refs => exact refsIn_of_checks hsref hlref

end StockManager
