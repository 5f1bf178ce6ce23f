import StockManager.Effects.Rows

/-! # Rows of the build services (domain/builds/{service,kitting}.py) -/

namespace StockManager

variable {db db' : Db} {ctx : Ctx} {build : Build} {project : Project} {now : Timestamp}
  {written : ℕ} {buildStageId : Option Uuid} {rows : List StockEntry}
  {entriesById : List (Uuid × ProjectEntry)} {requiredByEntry : List (Uuid × ℤ)}

theorem consumableEntries_ids {workspaceId : Uuid} (hids : (db.projectEntries.map (·.id)).Nodup) :
    ((consumableEntries db workspaceId project).map (·.id)).Nodup := by
  unfold consumableEntries projectEntriesOf
  have hperm := List.perm_insertionSort (fun a b : ProjectEntry => a.orderIndex ≤ b.orderIndex)
    (db.projectEntries.filter fun e => e.workspaceId = workspaceId ∧ e.projectId = project.id)
  have hsorted := ((hperm.map (·.id)).nodup_iff).mpr
    (hids.sublist (List.filter_sublist.map _))
  exact hsorted.sublist (List.filter_sublist.map _)

/-- `db'` is `db` with the ledger rows `rows` appended, under new ids. -/
structure Appends (db db' : Db) (rows : List StockEntry) : Prop where
  eq : db' = { db with stockEntries := db.stockEntries ++ rows }
  fresh : ∀ e ∈ rows, ∀ r ∈ db.stockEntries, r.id ≠ e.id
  nodup : (rows.map (·.id)).Nodup

theorem Appends.nil (db : Db) : Appends db db [] :=
  ⟨by simp, by simp, List.nodup_nil⟩

theorem Appends.cons {db db₁ db' : Db} {e : StockEntry}
    (hinsert : db.insertStockEntry e = .ok db₁) (h : Appends db₁ db' rows) :
    Appends db db' (e :: rows) := by
  obtain ⟨hfresh, rfl⟩ := insertStockEntry_ok.mp hinsert
  have hrows := h.fresh
  simp only [List.mem_append, List.mem_singleton, or_imp, forall_and, forall_eq] at hrows
  refine ⟨?_, ?_, ?_⟩
  · rw [h.eq]
    simp
  · intro r hr
    rcases List.mem_cons.mp hr with rfl | hr
    · exact hfresh
    · exact hrows.1 r hr
  · rw [List.map_cons, List.nodup_cons]
    refine ⟨?_, h.nodup⟩
    intro hmem
    obtain ⟨r, hr, hid⟩ := List.mem_map.mp hmem
    exact hrows.2 r hr hid.symm

/-- A reserve row of the build. -/
structure ReserveOf (workspaceId : Uuid) (build : Build) (e : StockEntry) : Prop where
  workspace : e.workspaceId = workspaceId
  buildId : e.buildId = some build.id
  lot : e.lotId = none
  status : e.status = .reserved
  operation : e.operationType = .reserve
  positive : 0 < e.quantityDelta

/-- A release row of the build that counters `quantity` of a reserve row. -/
structure ReleaseOf (workspaceId : Uuid) (build : Build) (item : StockEntry × Decimal)
    (e : StockEntry) : Prop where
  workspace : e.workspaceId = workspaceId
  buildId : e.buildId = some build.id
  part : e.partId = item.1.partId
  lot : e.lotId = none
  status : e.status = .reserved
  operation : e.operationType = .release
  related : e.relatedEntryId = some item.1.id
  delta : e.quantityDelta = -item.2

theorem reserveRow_some {id : Uuid} {e : ProjectEntry} {row : StockEntry}
    (h : reserveRow ctx db build project now id e = some row) :
    ReserveOf ctx.workspaceId build row := by
  unfold reserveRow at h
  split at h
  next => cases h
  next part hpart =>
    simp only at h
    split at h
    next => cases h
    next hqty =>
      obtain rfl := Option.some.inj h
      refine ⟨rfl, rfl, rfl, rfl, rfl, ?_⟩
      have hpos : (0 : ℤ) < required e (some part) build.quantity := not_le.mp hqty
      simpa [newStockEntry] using hpos

theorem reserveEntries_rows {entries : List ProjectEntry}
    (h : reserveEntries ctx db build project now entries = .ok (written, db')) :
    ∃ rows, Appends db db' rows ∧ ∀ e ∈ rows, ReserveOf ctx.workspaceId build e := by
  induction entries generalizing ctx db written with
  | nil =>
    simp only [reserveEntries, Except.ok.injEq, Prod.mk.injEq] at h
    exact ⟨[], h.2 ▸ Appends.nil db, fun e he => by cases he⟩
  | cons e entries ih =>
    unfold reserveEntries at h
    split at h
    next =>
      obtain ⟨rows, happends, hrows⟩ := ih h
      exact ⟨rows, happends, hrows⟩
    next row hrow =>
      simp only [Outcome.bind_ok, Outcome.pure_ok, Prod.exists, Prod.mk.injEq] at h
      obtain ⟨db₁, hinsert, n, db₂, hrest, _, rfl⟩ := h
      obtain ⟨rows, happends, hrows⟩ := ih hrest
      refine ⟨row :: rows, happends.cons hinsert, ?_⟩
      intro r hr
      rcases List.mem_cons.mp hr with rfl | hr
      · exact reserveRow_some hrow
      · exact hrows r hr

theorem applyReservations_rows (h : applyReservations ctx db build project = .ok (written, db')) :
    ∃ rows, Appends db db' rows ∧ ∀ e ∈ rows, ReserveOf ctx.workspaceId build e :=
  reserveEntries_rows h

def ReservedFor (db : Db) (workspaceId : Uuid) (project : Project) (quantity : ℤ)
    (r : StockEntry) : Prop :=
  r.workspaceId = workspaceId ∧ ∃ e ∈ consumableEntries db workspaceId project,
    ∃ part, e.partId.bind db.part = some part ∧ 0 < required e (some part) quantity ∧
      r.partId = some part.id

theorem reserveEntries_parts {entries : List ProjectEntry}
    (h : reserveEntries ctx db build project now entries = .ok (written, db')) :
    ∀ r ∈ db'.stockEntries, r ∈ db.stockEntries ∨ r.workspaceId = ctx.workspaceId ∧
      ∃ e ∈ entries, ∃ part, e.partId.bind db.part = some part ∧
        0 < required e (some part) build.quantity ∧ r.partId = some part.id := by
  induction entries generalizing ctx db written with
  | nil =>
    simp only [reserveEntries, Except.ok.injEq, Prod.mk.injEq] at h
    exact fun r hr => .inl (h.2 ▸ hr)
  | cons e entries ih =>
    intro r hr
    unfold reserveEntries at h
    split at h
    next =>
      rcases ih h r hr with hold | ⟨hws, x, hx, hfor⟩
      · exact .inl hold
      · exact .inr ⟨hws, x, List.mem_cons_of_mem _ hx, hfor⟩
    next row hrow =>
      simp only [Outcome.bind_ok, Outcome.pure_ok, Prod.exists, Prod.mk.injEq] at h
      obtain ⟨db₁, hinsert, n, db₂, hrest, _, rfl⟩ := h
      obtain ⟨_, rfl⟩ := insertStockEntry_ok.mp hinsert
      rcases ih hrest r hr with hold | ⟨hws, x, hx, hfor⟩
      · rcases List.mem_append.mp hold with hold | hnew
        · exact .inl hold
        · obtain rfl := List.mem_singleton.mp hnew
          unfold reserveRow at hrow
          split at hrow
          next => cases hrow
          next part hpart =>
            simp only at hrow
            split at hrow
            next => cases hrow
            next hqty =>
              obtain rfl := Option.some.inj hrow
              exact .inr ⟨rfl, e, List.mem_cons_self .., part, hpart, not_le.mp hqty, rfl⟩
      · exact .inr ⟨hws, x, List.mem_cons_of_mem _ hx, hfor⟩

theorem applyReservations_parts (h : applyReservations ctx db build project = .ok (written, db')) :
    ∀ r ∈ db'.stockEntries, r ∈ db.stockEntries ∨
      ReservedFor db ctx.workspaceId project build.quantity r :=
  reserveEntries_parts h

theorem writeReleases_rows {plan : List (StockEntry × Decimal)}
    (h : writeReleases ctx db build buildStageId now plan = .ok (written, db')) :
    ∃ rows, Appends db db' rows ∧
      List.Forall₂ (ReleaseOf ctx.workspaceId build) plan rows := by
  induction plan generalizing ctx db written with
  | nil =>
    simp only [writeReleases, Except.ok.injEq, Prod.mk.injEq] at h
    exact ⟨[], h.2 ▸ Appends.nil db, List.Forall₂.nil⟩
  | cons item plan ih =>
    obtain ⟨reserve, quantity⟩ := item
    simp only [writeReleases, Outcome.bind_ok, Outcome.pure_ok, Prod.exists, Prod.mk.injEq] at h
    obtain ⟨db₁, hinsert, n, db₂, hrest, _, rfl⟩ := h
    obtain ⟨rows, happends, hrows⟩ := ih hrest
    exact ⟨_ :: rows, happends.cons hinsert,
      List.Forall₂.cons ⟨rfl, rfl, rfl, rfl, rfl, rfl, rfl, rfl⟩ hrows⟩

theorem releaseReservations_rows (h : releaseReservations ctx db build = .ok (written, db')) :
    ∃ rows, Appends db db' rows ∧ List.Forall₂ (ReleaseOf ctx.workspaceId build)
      (outstandingReservations db ctx.workspaceId build).2 rows := by
  unfold releaseReservations at h
  simp only at h
  split at h
  next hnone =>
    obtain ⟨_, rfl⟩ := Prod.mk.inj (Except.ok.inj h)
    have hrows : reserveRowsOf db ctx.workspaceId build = [] := by
      simpa [outstandingReservations] using hnone
    exact ⟨[], Appends.nil db, by simp [outstandingReservations, hrows]⟩
  next => exact writeReleases_rows h

theorem plannedReleases_nil (amounts : List (Uuid × Decimal)) :
    plannedReleases [] amounts = [] := by
  unfold plannedReleases
  exact List.flatMap_eq_nil_iff.mpr fun _ _ => rfl

/-- A release appends one row for each planned release, in that order. -/
theorem releaseReservationAmounts_rows {amounts : List (Uuid × Decimal)}
    (h : releaseReservationAmounts ctx db build amounts buildStageId = .ok (written, db')) :
    ∃ rows, Appends db db' rows ∧ List.Forall₂ (ReleaseOf ctx.workspaceId build)
      (plannedReleases (outstandingReservations db ctx.workspaceId build).2 amounts) rows := by
  unfold releaseReservationAmounts at h
  simp only at h
  split at h
  next hnone =>
    obtain ⟨_, rfl⟩ := Prod.mk.inj (Except.ok.inj h)
    have hrows : reserveRowsOf db ctx.workspaceId build = [] := by
      simpa [outstandingReservations] using hnone
    refine ⟨[], Appends.nil db, ?_⟩
    simp [outstandingReservations, hrows, plannedReleases_nil]
  next => exact writeReleases_rows h

/-- The bucket a consume line names. -/
def ConsumeLineIn.bucket (workspaceId : Uuid) (line : ConsumeLineIn) : Bucket :=
  ⟨workspaceId, some line.partId, line.lotId, line.storageLocationId⟩

theorem consumeLine_rows {line : ConsumeLineIn} {e : StockEntry}
    (h : consumeLine ctx db build project entriesById requiredByEntry now buildStageId line =
      .ok (e, db')) :
    db.insertStockEntry e = .ok db' ∧
      Drawn db (line.bucket ctx.workspaceId) line.quantity e ∧
      e.operationType = .buildConsume ∧ e.buildId = some build.id := by
  simp only [consumeLine, Outcome.bind_ok, Outcome.check_ok, exists_const, Outcome.pure_ok,
    Outcome.orRaise_ok, Prod.mk.injEq] at h
  obtain ⟨_, _, _, _, _, _, _, _, hlref, _, hsref, havail, _, hinsert, rfl, rfl⟩ := h
  rw [currentQuantity_bucket] at havail
  refine ⟨hinsert, ?_, rfl, rfl⟩
  constructor
  case bucket => rfl
  case status => rfl
  case delta => rfl
  case available => exact havail
  case fresh => exact (insertStockEntry_ok.mp hinsert).1
  case refs => exact refsIn_of_checks hsref hlref

/-- The row a consume line writes. -/
structure ConsumeRow (workspaceId : Uuid) (build : Build) (line : ConsumeLineIn)
    (e : StockEntry) : Prop where
  bucket : e.bucket = line.bucket workspaceId
  status : e.status = .onHand
  delta : e.quantityDelta = -line.quantity
  operation : e.operationType = .buildConsume
  buildId : e.buildId = some build.id

/-- Consumption appends one row for each line, in that order. -/
theorem consumeLines_rows {lines : List ConsumeLineIn}
    (h : consumeLines ctx db build project entriesById requiredByEntry now buildStageId lines =
      .ok (rows, db')) :
    Appends db db' rows ∧ List.Forall₂ (ConsumeRow ctx.workspaceId build) lines rows := by
  induction lines generalizing ctx db rows with
  | nil =>
    simp only [consumeLines, Except.ok.injEq, Prod.mk.injEq] at h
    obtain ⟨rfl, rfl⟩ := h
    exact ⟨Appends.nil db, List.Forall₂.nil⟩
  | cons line lines ih =>
    simp only [consumeLines, Outcome.bind_ok, Outcome.pure_ok, Prod.exists, Prod.mk.injEq] at h
    obtain ⟨e, db₁, hline, others, db₂, hrest, rfl, rfl⟩ := h
    obtain ⟨hinsert, hdrawn, hop, hbuild⟩ := consumeLine_rows hline
    obtain ⟨happends, hrows⟩ := ih hrest
    exact ⟨happends.cons hinsert, List.Forall₂.cons
      ⟨hdrawn.bucket, hdrawn.status, hdrawn.delta, hop, hbuild⟩ hrows⟩

theorem applyConsumeLines_ok {lines : List ConsumeLineIn}
    (h : applyConsumeLines ctx db build project lines entriesById requiredByEntry now
      buildStageId = .ok (rows, db')) :
    consumeLines ctx db build project entriesById requiredByEntry now buildStageId lines =
      .ok (rows, db') := by
  simp only [applyConsumeLines, Outcome.bind_ok, Outcome.pure_ok, Prod.exists,
    Prod.mk.injEq] at h
  obtain ⟨_, _, _, _, hlines, _, _, rfl, rfl⟩ := h
  exact hlines

theorem produceOutput_rows {storageId : Option Uuid} {lotName : Option String}
    {output : Option (Lot × StockEntry)}
    (h : produceOutput ctx db build project storageId lotName now = .ok (output, db')) :
    (output = none ∧ db' = db ∧ project.associatedSubassemblyPartId = none) ∨
    ∃ lot e partId, output = some (lot, e) ∧
      project.associatedSubassemblyPartId = some partId ∧
      db' = { db with
        lots := db.lots ++ [lot]
        stockEntries := db.stockEntries ++ [e] } ∧
      Produced db ctx.workspaceId partId storageId build.quantity [lot] e ∧
      e.operationType = .buildProduce ∧ e.buildId = some build.id ∧
      lot.sourceType = .build ∧ lot.sourceBuildId = some build.id := by
  unfold produceOutput at h
  split at h
  next hnone =>
    obtain ⟨rfl, rfl⟩ := Prod.mk.inj (Except.ok.inj h)
    exact Or.inl ⟨rfl, rfl, hnone⟩
  next partId hsome =>
    simp only [Outcome.bind_ok, Outcome.pure_ok, partInWorkspace_ok, insertLot_ok,
      insertStockEntry_ok, Prod.mk.injEq] at h
    obtain ⟨part, ⟨hpart, _⟩, storage, hstorage, _, ⟨hlotFresh, rfl⟩, _, ⟨hfresh, rfl⟩, rfl,
      rfl⟩ := h
    rw [part_id hpart] at hstorage
    obtain ⟨hid, hadmits⟩ := destination_ok hstorage
    refine Or.inr ⟨_, _, partId, rfl, hsome, rfl, ?_, rfl, rfl, rfl, rfl⟩
    constructor
    case bucket => simp [StockEntry.bucket, newStockEntry, part_id hpart, hid]
    case status => rfl
    case delta => rfl
    case lots => exact Or.inr ⟨_, rfl, rfl, by simp [newLot, part_id hpart], hlotFresh⟩
    case fresh => exact hfresh
    case admitted => exact hadmits

end StockManager
