import Mathlib.Data.List.Dedup
import StockManager.Effects.BuildRows
import StockManager.Effects.StockRows
import StockManager.Library.Draining
import StockManager.Model.System

/-! # What one request can do to the ledger

`LedgerStep` lists every way the ledger, the lots and the storage locations
change. Each request is a chain of such steps, so a property that every step
keeps holds in every reachable state. Count corrections are the one step with
a condition left open: `Recount` says which of them the runs at hand make. -/

namespace StockManager

variable {build : Build} {project : Project} {buildStageId : Option Uuid} {order : Order}
  {written : ℕ} {now : Timestamp} {rows : List StockEntry}
variable {a b c : Db} {e outEntry inEntry : StockEntry} {serialTrackingOn : Bool}
  {receivedAt : Timestamp} {lines : List ConsumeLineIn} {entriesById : List (Uuid × ProjectEntry)}
  {requiredByEntry : List (Uuid × ℤ)}

/-- At the location only one part has positive stock. -/
def SinglePartAt (rows : List StockEntry) (workspaceId storageLocationId : Uuid) : Prop :=
  ∀ p q l m, 0 < balance rows ⟨workspaceId, p, l, some storageLocationId⟩ →
    0 < balance rows ⟨workspaceId, q, m, some storageLocationId⟩ → p = q

/-- The ledger, the lots and the storage locations are the same. -/
structure SameLedger (db db' : Db) : Prop where
  lots : db'.lots = db.lots
  storageLocations : db'.storageLocations = db.storageLocations
  stockEntries : db'.stockEntries = db.stockEntries

theorem SameLedger.trans (h : SameLedger a b) (k : SameLedger b c) :
    SameLedger a c :=
  ⟨k.lots.trans h.lots, k.storageLocations.trans h.storageLocations,
    k.stockEntries.trans h.stockEntries⟩

/-- The builds and their stages are the same. -/
structure SameBuilds (db db' : Db) : Prop where
  builds : db'.builds = db.builds
  buildStages : db'.buildStages = db.buildStages
  buildStageLines : db'.buildStageLines = db.buildStageLines

theorem SameBuilds.trans (h : SameBuilds a b) (k : SameBuilds b c) :
    SameBuilds a c :=
  ⟨k.builds.trans h.builds, k.buildStages.trans h.buildStages,
    k.buildStageLines.trans h.buildStageLines⟩

/-- A step that writes on-hand rows or locations and leaves the builds alone. -/
inductive StockStep (Recount : Db → Bucket → Decimal → Prop) : Db → Db → Prop
  | produced {db : Db} {workspaceId partId : Uuid} {storageId : Option Uuid} {quantity : Decimal}
      {lots : List Lot} {e : StockEntry}
      (h : Produced db workspaceId partId storageId quantity lots e) (hpos : 0 < quantity) :
      StockStep Recount db
        { db with lots := db.lots ++ lots, stockEntries := db.stockEntries ++ [e] }
  | drawn {db : Db} {b : Bucket} {quantity : Decimal} {e : StockEntry}
      (h : Drawn db b quantity e) (hpos : 0 < quantity) :
      StockStep Recount db { db with stockEntries := db.stockEntries ++ [e] }
  | moved {db : Db} {workspaceId partId : Uuid} {source : Option Uuid × Option Uuid}
      {dest : Uuid} {quantity : Decimal} {lots : List Lot} {outEntry inEntry : StockEntry}
      (h : MovedPair db workspaceId partId source dest quantity lots outEntry inEntry)
      (hpos : 0 < quantity) :
      StockStep Recount db
        { db with lots := db.lots ++ lots, stockEntries := db.stockEntries ++ [outEntry, inEntry] }
  | recounted {db : Db} {b : Bucket} {actual : Decimal} {e : StockEntry}
      (h : Recounted db b actual e) (hnonneg : 0 ≤ actual)
      (hchanged : balance db.stockEntries b ≠ actual) (hcond : Recount db b actual) :
      StockStep Recount db { db with stockEntries := db.stockEntries ++ [e] }
  | patched {db : Db} {s row : StorageLocation} (hs : db.storageLocation s.id = some s)
      (hid : row.id = s.id) (hws : row.workspaceId = s.workspaceId)
      (harch : row.archivedAt = s.archivedAt)
      (hflag : row.singlePartOnly = true → s.singlePartOnly = true ∨
        SinglePartAt db.stockEntries s.workspaceId s.id) :
      StockStep Recount db (db.updateStorageLocation s.id fun _ => row)
  | archived {db : Db} {s : StorageLocation} {now : Timestamp}
      (hs : db.storageLocation s.id = some s)
      (hempty : ∀ p l, balance db.stockEntries ⟨s.workspaceId, p, l, some s.id⟩ ≤ 0) :
      StockStep Recount db
        (db.updateStorageLocation s.id fun r => { r with archivedAt := some now })
  | restored {db : Db} {s : StorageLocation} (hs : db.storageLocation s.id = some s) :
      StockStep Recount db (db.updateStorageLocation s.id fun r => { r with archivedAt := none })
  | created {db : Db} {row : StorageLocation} (hfresh : ∀ r ∈ db.storageLocations, r.id ≠ row.id)
      (harch : row.archivedAt = none) :
      StockStep Recount db { db with storageLocations := db.storageLocations ++ [row] }
  | elsewhere {db db' : Db} (h : SameLedger db db') (hbuilds : SameBuilds db db') :
      StockStep Recount db db'

inductive LedgerStep (Recount : Db → Bucket → Decimal → Prop) : Db → Db → Prop
  | stock {db db' : Db} (h : StockStep Recount db db') : LedgerStep Recount db db'
  | noted {db db' : Db} {rows : List StockEntry} (h : Appends db db' rows)
      (hrows : ∀ e ∈ rows, e.status = .reserved ∧ e.lotId = none) : LedgerStep Recount db db'
  | builds {db db' : Db} (h : SameLedger db db') : LedgerStep Recount db db'

abbrev StockChain (Recount : Db → Bucket → Decimal → Prop) : Db → Db → Prop :=
  Relation.ReflTransGen (StockStep Recount)

abbrev LedgerChain (Recount : Db → Bucket → Decimal → Prop) : Db → Db → Prop :=
  Relation.ReflTransGen (LedgerStep Recount)

theorem StockChain.ledger {Recount : Db → Bucket → Decimal → Prop} {db db' : Db}
    (h : StockChain Recount db db') : LedgerChain Recount db db' :=
  Relation.ReflTransGen.mono (fun _ _ => LedgerStep.stock) _ _ h

section Chains

variable {Recount : Db → Bucket → Decimal → Prop} {ctx : Ctx} {db db' : Db}

theorem addStock_chain {payload : AddStockIn}
    (h : addStock ctx db payload = .ok (e, db')) : StockChain Recount db db' := by
  obtain ⟨lots, rfl, hproduced⟩ := addStock_rows h
  exact .single (.produced hproduced (by exact_mod_cast payload.quantityPos))

theorem removeStock_chain {payload : RemoveStockIn}
    (h : removeStock ctx db payload = .ok (e, db')) : StockChain Recount db db' := by
  obtain ⟨rfl, hdrawn⟩ := removeStock_rows h
  exact .single (.drawn hdrawn (by exact_mod_cast payload.quantityPos))

theorem moveStock_chain {payload : MoveStockIn}
    (h : moveStock ctx db payload = .ok ((outEntry, inEntry), db')) :
    StockChain Recount db db' := by
  obtain ⟨lots, rfl, _, _, hmoved⟩ := moveStock_rows h
  exact .single (.moved hmoved (by exact_mod_cast payload.quantityPos))

theorem moveQuantity_chain {partId : Uuid} {quantity : Decimal} {storageId lotId : Option Uuid}
    {destId : Uuid} {comments : Option String} {buildId buildStageId : Option Uuid}
    (hpos : 0 < quantity)
    (h : moveQuantity ctx db partId quantity storageId lotId destId comments buildId
      buildStageId = .ok ((outEntry, inEntry), db')) : StockChain Recount db db' := by
  obtain ⟨rfl, hmoved⟩ := moveQuantity_rows h
  have hstep : StockStep Recount db _ := .moved hmoved hpos
  simp only [List.append_nil] at hstep
  exact .single hstep

/-- The bucket and the count of a correction. -/
def AdjustStockIn.bucket (workspaceId : Uuid) (payload : AdjustStockIn) : Bucket :=
  ⟨workspaceId, some payload.partId, payload.lotId, payload.storageLocationId⟩

theorem adjustStock_chain {payload : AdjustStockIn} {e : Option StockEntry}
    (hcond : Recount db (payload.bucket ctx.workspaceId) payload.actualQuantity)
    (h : adjustStock ctx db payload = .ok (e, db')) : StockChain Recount db db' := by
  obtain ⟨rfl, hnone, hrecounted⟩ := adjustStock_rows h
  cases e with
  | none => simpa using Relation.ReflTransGen.refl
  | some e =>
    have hchanged := mt hnone.mpr (by simp)
    exact .single (.recounted (hrecounted e rfl) (by exact_mod_cast payload.actualNonneg)
      hchanged hcond)

theorem receiveLine_chain {line : ReceiveLineIn} {written : Lot × StockEntry}
    (h : receiveLine ctx db order serialTrackingOn receivedAt line = .ok (written, db')) :
    StockChain Recount db db' := by
  obtain ⟨oe, _, _, partId, _, _, orderEntries, rfl, hproduced⟩ := receiveLine_rows h
  have hpos : (0 : Decimal) < line.quantity := by exact_mod_cast line.quantityPos
  have hstep : StockStep Recount db _ := .produced hproduced hpos
  exact (Relation.ReflTransGen.single hstep).tail (.elsewhere ⟨rfl, rfl, rfl⟩ ⟨rfl, rfl, rfl⟩)

theorem receiveLines_chain {lines : List ReceiveLineIn} {written : List (Lot × StockEntry)}
    (h : receiveLines ctx db order serialTrackingOn receivedAt lines = .ok (written, db')) :
    StockChain Recount db db' := by
  induction lines generalizing ctx db written with
  | nil =>
    simp only [receiveLines, Except.ok.injEq, Prod.mk.injEq] at h
    exact h.2 ▸ .refl
  | cons line lines ih =>
    simp only [receiveLines, Outcome.bind_ok, Outcome.pure_ok, Prod.mk.injEq] at h
    obtain ⟨⟨w, db₁⟩, hline, ⟨ws, db₂⟩, hrest, _, rfl⟩ := h
    exact (receiveLine_chain hline).trans (ih hrest)

theorem receive_chain {payload : ReceiveIn} {result : ReceiveResult}
    (h : receive ctx db order payload = .ok (result, db')) : StockChain Recount db db' := by
  simp only [receive, Outcome.bind_ok, Outcome.check_ok, exists_const, Outcome.pure_ok,
    Prod.mk.injEq] at h
  obtain ⟨_, ⟨written, db₁⟩, hlines, _, rfl⟩ := h
  exact (receiveLines_chain hlines).tail (.elsewhere ⟨rfl, rfl, rfl⟩ ⟨rfl, rfl, rfl⟩)

theorem consumeLines_chain
    (h : consumeLines ctx db build project entriesById requiredByEntry now buildStageId lines =
      .ok (rows, db')) : StockChain Recount db db' := by
  induction lines generalizing ctx db rows with
  | nil =>
    simp only [consumeLines, Except.ok.injEq, Prod.mk.injEq] at h
    exact h.2 ▸ .refl
  | cons line lines ih =>
    simp only [consumeLines, Outcome.bind_ok, Outcome.pure_ok, Prod.mk.injEq] at h
    obtain ⟨⟨e, db₁⟩, hline, ⟨others, db₂⟩, hrest, _, rfl⟩ := h
    obtain ⟨hinsert, hdrawn, _⟩ := consumeLine_rows hline
    obtain ⟨_, rfl⟩ := insertStockEntry_ok.mp hinsert
    have hpos : (0 : Decimal) < line.quantity := by exact_mod_cast line.quantityPos
    exact (Relation.ReflTransGen.single (.drawn hdrawn hpos)).trans (ih hrest)

theorem applyConsumeLines_chain
    (h : applyConsumeLines ctx db build project lines entriesById requiredByEntry now
      buildStageId = .ok (rows, db')) : StockChain Recount db db' :=
  consumeLines_chain (applyConsumeLines_ok h)

theorem applyReservations_chain (h : applyReservations ctx db build project = .ok (written, db')) :
    LedgerChain Recount db db' := by
  obtain ⟨rows, happends, hrows⟩ := applyReservations_rows h
  exact .single (.noted happends fun e he => ⟨(hrows e he).status, (hrows e he).lot⟩)

theorem releases_reserved {workspaceId : Uuid} {plan : List (StockEntry × Decimal)}
    (h : List.Forall₂ (ReleaseOf workspaceId build) plan rows) :
    ∀ e ∈ rows, e.status = .reserved ∧ e.lotId = none := by
  induction h with
  | nil => exact fun e he => by cases he
  | cons hrow _ ih =>
    intro e he
    rcases List.mem_cons.mp he with rfl | he
    · exact ⟨hrow.status, hrow.lot⟩
    · exact ih e he

theorem releaseReservations_chain
    (h : releaseReservations ctx db build = .ok (written, db')) : LedgerChain Recount db db' := by
  obtain ⟨rows, happends, hrows⟩ := releaseReservations_rows h
  exact .single (.noted happends (releases_reserved hrows))

theorem releaseReservationAmounts_chain {amounts : List (Uuid × Decimal)}
    (h : releaseReservationAmounts ctx db build amounts buildStageId = .ok (written, db')) :
    LedgerChain Recount db db' := by
  obtain ⟨rows, happends, hrows⟩ := releaseReservationAmounts_rows h
  exact .single (.noted happends (releases_reserved hrows))

theorem produceOutput_chain {storageId : Option Uuid}
    {lotName : Option String} {output : Option (Lot × StockEntry)}
    (h : produceOutput ctx db build project storageId lotName now = .ok (output, db')) :
    StockChain Recount db db' := by
  obtain ⟨_, rfl, _⟩ | ⟨lot, e, partId, _, _, rfl, hproduced, _⟩ := produceOutput_rows h
  · exact .refl
  · exact .single (.produced hproduced (by exact_mod_cast build.quantityPos))

end Chains

end StockManager

/-! ## Every request is a chain of ledger steps -/

namespace StockManager

variable {build : Build} {project : Project} {stage : Option BuildStage} {storageId : Uuid}
  {payload : ConsumeIn} {staging : StorageLocation} {Recount : Db → Bucket → Decimal → Prop}
  {db db' : Db}
variable {row : StorageLocation} {lines : List KitLine} {workspaceId buildId : Uuid} {call : Call}

section Builds

variable {Recount : Db → Bucket → Decimal → Prop} {ctx : Ctx} {db db' : Db}

theorem completeBuild_same (build : Build) (outputLot : Option Lot) (now : Timestamp) :
    SameLedger db (completeBuild ctx db build outputLot now) := ⟨rfl, rfl, rfl⟩

theorem markStageConsumed_same (build : Build) (stage : BuildStage) (now : Timestamp) :
    SameLedger db (markStageConsumed ctx db build stage now) := ⟨rfl, rfl, rfl⟩

theorem consume_chain
    {result : ConsumeResult} (h : consume ctx db build project payload = .ok (result, db')) :
    LedgerChain Recount db db' := by
  simp only [consume, Outcome.bind_ok, Outcome.check_ok, exists_const, Outcome.pure_ok,
    Prod.mk.injEq] at h
  obtain ⟨_, ⟨n, db₁⟩, hrelease, ⟨rows, db₂⟩, hlines, ⟨output, db₃⟩, houtput, _, rfl⟩ := h
  exact (((releaseReservations_chain hrelease).trans (applyConsumeLines_chain hlines).ledger).trans
    (produceOutput_chain houtput).ledger).tail (.builds (completeBuild_same ..))

theorem finishBuild_chain {now : Timestamp} {output : Option (Lot × StockEntry)}
    (h : finishBuild ctx db build project payload now = .ok (output, db')) :
    LedgerChain Recount db db' := by
  simp only [finishBuild, Outcome.bind_ok, Outcome.pure_ok, Prod.mk.injEq] at h
  obtain ⟨⟨out, db₁⟩, houtput, ⟨n, db₂⟩, hrelease, _, rfl⟩ := h
  exact ((produceOutput_chain houtput).ledger.tail (.builds (completeBuild_same ..))).trans
    (releaseReservations_chain hrelease)

theorem consumeStage_chain {stage : BuildStage} {result : StageConsumeResult}
    (h : consumeStage ctx db build project stage payload = .ok (result, db')) :
    LedgerChain Recount db db' := by
  simp only [consumeStage, Outcome.bind_ok, Outcome.check_ok, exists_const] at h
  obtain ⟨_, _, _, _, _, _, ⟨n, db₁⟩, hrelease, ⟨rows, db₂⟩, hlines, hrest⟩ := h
  have hdrawn : LedgerChain Recount db db₂ :=
    (releaseReservationAmounts_chain hrelease).trans (applyConsumeLines_chain hlines).ledger
  split at hrest
  next =>
    simp only [Outcome.bind_ok, Outcome.pure_ok, Prod.mk.injEq] at hrest
    obtain ⟨⟨output, db₃⟩, hfinish, _, rfl⟩ := hrest
    exact (hdrawn.tail (.builds (markStageConsumed_same ..))).trans (finishBuild_chain hfinish)
  next =>
    simp only [Outcome.pure_ok, Prod.mk.injEq] at hrest
    obtain ⟨_, rfl⟩ := hrest
    exact hdrawn.tail (.builds (markStageConsumed_same ..))

theorem insertBuild_same {row : Build} (h : db.insertBuild row = .ok db') :
    SameLedger db db' := by
  simp only [Db.insertBuild, Outcome.bind_ok, Outcome.pure_ok] at h
  obtain ⟨_, _, rfl⟩ := h
  exact ⟨rfl, rfl, rfl⟩

theorem insertBuildStage_same {row : BuildStage} (h : db.insertBuildStage row = .ok db') :
    SameLedger db db' := by
  simp only [Db.insertBuildStage, Outcome.bind_ok, Outcome.pure_ok] at h
  obtain ⟨_, _, _, _, rfl⟩ := h
  exact ⟨rfl, rfl, rfl⟩

theorem insertBuildStageLine_same {row : BuildStageLine}
    (h : db.insertBuildStageLine row = .ok db') : SameLedger db db' := by
  simp only [Db.insertBuildStageLine, Outcome.bind_ok, Outcome.pure_ok] at h
  obtain ⟨_, _, _, _, rfl⟩ := h
  exact ⟨rfl, rfl, rfl⟩

theorem insertStageLines_same {lines : List BuildStageLineIn} {stageId : Uuid}
    (h : insertStageLines ctx db stageId lines = .ok db') : SameLedger db db' := by
  induction lines generalizing ctx db with
  | nil =>
    cases h
    exact ⟨rfl, rfl, rfl⟩
  | cons line lines ih =>
    simp only [insertStageLines, Outcome.bind_ok] at h
    obtain ⟨db₁, hinsert, hrest⟩ := h
    exact (insertBuildStageLine_same hinsert).trans (ih hrest)

theorem createStage_same {payload : BuildStageCreateIn}
    {stage : BuildStage} (h : createStage ctx db build project payload = .ok (stage, db')) :
    SameLedger db db' := by
  simp only [createStage, Outcome.bind_ok, Outcome.pure_ok, Prod.mk.injEq] at h
  obtain ⟨_, _, _, _, _, _, _, _, _, _, db₁, hstage, db₂, hlines, _, rfl⟩ := h
  exact (insertBuildStage_same hstage).trans (insertStageLines_same hlines)

theorem takeBuckets_eq (remaining : Decimal) (buckets : List PartStockRow) :
    takeBuckets remaining buckets = (Draining.drain (·.quantity) remaining buckets).map
      fun x => ⟨x.1.storageLocationId, x.1.lotId, x.2⟩ := by
  induction buckets generalizing remaining with
  | nil => rfl
  | cons b buckets ih =>
    unfold takeBuckets Draining.drain
    split
    next => rfl
    next => rw [List.map_cons, ← ih]

theorem sourcesFor_mem {workspaceId partId stagingId : Uuid} {wanted : Decimal} {source : KitSource}
    (h : source ∈ sourcesFor db workspaceId partId stagingId wanted) :
    source.storageLocationId ≠ some stagingId ∧ 0 < source.quantity := by
  rw [sourcesFor, takeBuckets_eq] at h
  obtain ⟨x, hx, rfl⟩ := List.mem_map.mp h
  obtain ⟨hmem, _, hpos⟩ := Draining.drain_mem hx
  have hbucket := of_decide_eq_true (List.mem_filter.mp ((List.mem_insertionSort _).mp hmem)).2
  exact ⟨hbucket.1, hpos hbucket.2⟩

theorem planKit_pos
    :
    ∀ line ∈ planKit db workspaceId build project stage staging,
      ∀ source ∈ line.sources, 0 < source.quantity := by
  intro line hline source hsource
  obtain ⟨item, _, hitem⟩ := List.mem_filterMap.mp hline
  unfold kitLine at hitem
  simp only at hitem
  split at hitem
  next => cases hitem
  next part hpart =>
    obtain rfl := Option.some.inj hitem
    simp only at hsource
    split at hsource
    next => exact (sourcesFor_mem hsource).2
    next => cases hsource

theorem kitMoves_chain {moves : List (Uuid × KitSource)} (hpos : ∀ m ∈ moves, 0 < m.2.quantity)
    (h : kitMoves ctx db build stage staging moves = .ok db') : StockChain Recount db db' := by
  induction moves generalizing ctx db with
  | nil =>
    simp only [kitMoves, Except.ok.injEq] at h
    exact h ▸ .refl
  | cons m moves ih =>
    obtain ⟨partId, source⟩ := m
    simp only [kitMoves, Outcome.bind_ok, Prod.exists] at h
    obtain ⟨outEntry, inEntry, db₁, hmove, hrest⟩ := h
    have hfirst : 0 < source.quantity := hpos (partId, source) (List.mem_cons_self ..)
    exact (moveQuantity_chain hfirst hmove).trans
      (ih (fun m hm => hpos m (List.mem_cons_of_mem _ hm)) hrest)

theorem executeKit_chain (h : executeKit ctx db build project stage staging = .ok (lines, db')) :
    StockChain Recount db db' := by
  simp only [executeKit, Outcome.bind_ok, Outcome.pure_ok, Prod.mk.injEq] at h
  obtain ⟨_, _, _, _, _, _, db₁, hmoves, _, rfl⟩ := h
  refine kitMoves_chain ?_ hmoves
  intro m hm
  obtain ⟨line, hline, hm⟩ := List.mem_flatMap.mp hm
  obtain ⟨source, hsource, rfl⟩ := List.mem_map.mp hm
  exact planKit_pos line hline source hsource

theorem kitResponse_chain (h : kitResponse ctx db build stage storageId = .ok (lines, db')) :
    StockChain Recount db db' := by
  simp only [kitResponse, Outcome.bind_ok, Outcome.mapError_ok] at h
  obtain ⟨_, _, _, _, hkit⟩ := h
  exact executeKit_chain hkit

theorem createBuild_chain {payload : BuildCreateIn}
    (h : createBuild ctx db payload = .ok (build, db')) : LedgerChain Recount db db' := by
  simp only [createBuild, Outcome.bind_ok, Outcome.pure_ok, Prod.mk.injEq] at h
  obtain ⟨_, _, db₁, hinsert, ⟨n, db₂⟩, happly, _, rfl⟩ := h
  exact .head (.builds (insertBuild_same hinsert)) (applyReservations_chain happly)

theorem patchBuild_chain {payload : BuildPatchIn}
    (h : patchBuild ctx db buildId payload = .ok (build, db')) : LedgerChain Recount db db' := by
  simp only [patchBuild, Outcome.bind_ok] at h
  obtain ⟨old, _, _, _, _, _, b, _, hrest⟩ := h
  have hset : LedgerChain Recount db (db.updateBuild b.id fun _ => b) :=
    .single (.builds ⟨rfl, rfl, rfl⟩)
  split at hrest
  next =>
    simp only [Outcome.bind_ok, Outcome.pure_ok, Prod.mk.injEq] at hrest
    obtain ⟨⟨n, db₁⟩, hrelease, _, rfl⟩ := hrest
    exact hset.trans (releaseReservations_chain hrelease)
  next =>
    split at hrest
    next =>
      simp only [Outcome.bind_ok, Outcome.pure_ok, Prod.mk.injEq] at hrest
      obtain ⟨_, _, ⟨n, db₁⟩, hrelease, ⟨m, db₂⟩, happly, _, rfl⟩ := hrest
      exact (hset.trans (releaseReservations_chain hrelease)).trans
        (applyReservations_chain happly)
    next =>
      simp only [Outcome.pure_ok, Prod.mk.injEq] at hrest
      exact hrest.2 ▸ hset

theorem archiveBuild_chain (h : archiveBuild ctx db buildId = .ok db') :
    LedgerChain Recount db db' := by
  simp only [archiveBuild, Outcome.bind_ok, Outcome.pure_ok] at h
  obtain ⟨_, _, ⟨n, db₁⟩, hrelease, rfl⟩ := h
  exact (releaseReservations_chain hrelease).tail (.builds ⟨rfl, rfl, rfl⟩)

end Builds

section Storage

variable {Recount : Db → Bucket → Decimal → Prop} {ctx : Ctx} {db db' : Db}

theorem validateStorageConstraintFlagUpdate_single {s : StorageLocation}
    {existing : Option Bool} {u : Unit} (hoff : s.singlePartOnly = false)
    (h : validateStorageConstraintFlagUpdate db workspaceId s (some true) existing = .ok u) :
    SinglePartAt db.stockEntries workspaceId s.id := by
  simp only [validateStorageConstraintFlagUpdate, Outcome.bind_ok, Outcome.check_ok] at h
  obtain ⟨_, hlength, _⟩ := h
  have hone := hlength ⟨trivial, hoff⟩
  have hmem : ∀ p l, 0 < balance db.stockEntries ⟨workspaceId, p, l, some s.id⟩ →
      p ∈ (((stockForStorage db workspaceId s.id .onHand).filter
        fun row => 0 < row.quantity).map (·.partId)).dedup := by
    intro p l hpos
    rw [List.mem_dedup, List.mem_map]
    refine ⟨⟨p, l, balance db.stockEntries ⟨workspaceId, p, l, some s.id⟩⟩, ?_, rfl⟩
    rw [List.mem_filter]
    exact ⟨mem_stockForStorage.mpr ⟨ne_of_gt hpos, rfl⟩, by simpa using hpos⟩
  intro p q l m hp hq
  have hpMem := hmem p l hp
  have hqMem := hmem q m hq
  cases hlist : (((stockForStorage db workspaceId s.id .onHand).filter
      fun row => 0 < row.quantity).map (·.partId)).dedup with
  | nil =>
    rw [hlist] at hpMem
    cases hpMem
  | cons x rest =>
    rw [hlist] at hone hpMem hqMem
    have hrest : rest = [] := by
      rw [List.length_cons] at hone
      exact List.length_eq_zero_iff.mp (by omega)
    rw [hrest, List.mem_singleton] at hpMem hqMem
    rw [hpMem, hqMem]

theorem patchStorage_chain {payload : StoragePatch}
    (h : patchStorage ctx db storageId payload = .ok (row, db')) : StockChain Recount db db' := by
  simp only [patchStorage, getStorage, Outcome.bind_ok, Outcome.orRaise_ok, belongs_eq_some,
    Outcome.mapError_ok, Outcome.pure_ok, Prod.mk.injEq, patchedStorage] at h
  obtain ⟨s, ⟨hs, hws⟩, _, hvalid, _, ⟨name, _, single, hsingle, existing, _, full, _, rfl⟩, _, _,
    rfl, rfl⟩ := h
  have hid : s.id = storageId := storageLocation_id hs
  refine .single (.patched (s := s) (hid ▸ hs) rfl rfl rfl ?_)
  intro hflag
  simp only at hflag
  subst hflag
  cases hold : s.singlePartOnly with
  | true => exact Or.inl rfl
  | false =>
    right
    rw [hws]
    cases hpatch : payload.singlePartOnly with
    | unset => simp [hpatch, Patch.column, hold] at hsingle
    | null => simp [hpatch, Patch.column] at hsingle
    | set value =>
      simp only [hpatch, Patch.column, Except.ok.injEq] at hsingle
      subst hsingle
      rw [hpatch] at hvalid
      exact validateStorageConstraintFlagUpdate_single hold hvalid

theorem requireAdmin_ok {α : Type} {workspaceOf : α → Uuid} {obj : Option α} {label : String}
    {a : α} (h : requireAdmin ctx workspaceOf obj label = .ok a) :
    obj = some a ∧ workspaceOf a = ctx.workspaceId := by
  simp only [requireAdmin, Outcome.bind_ok, Outcome.orRaise_ok, belongs_eq_some,
    Outcome.pure_ok] at h
  obtain ⟨_, hobj, _, _, rfl⟩ := h
  exact hobj

theorem archiveStorage_chain (h : archiveStorage ctx db storageId = .ok db') :
    StockChain Recount db db' := by
  simp only [archiveStorage, Outcome.bind_ok, Outcome.check_ok, exists_const,
    Outcome.pure_ok] at h
  obtain ⟨s, hadmin, hblocking, rfl⟩ := h
  obtain ⟨hs, hws⟩ := requireAdmin_ok hadmin
  have hid : s.id = storageId := storageLocation_id hs
  refine .single (.archived (hid ▸ hs) ?_)
  intro p l
  by_contra hpos
  have hmem : (⟨p, l, balance db.stockEntries ⟨s.workspaceId, p, l, some s.id⟩⟩ :
      StorageStockRow) ∈ stockForStorage db ctx.workspaceId s.id .onHand := by
    rw [mem_stockForStorage, ← hws]
    exact ⟨ne_of_gt (not_le.mp hpos), rfl⟩
  have hin := List.filter_eq_nil_iff.mp hblocking _ (List.mem_append_left _ hmem)
  exact hin (decide_eq_true (not_le.mp hpos))

theorem restoreStorage_chain (h : restoreStorage ctx db storageId = .ok db') :
    StockChain Recount db db' := by
  simp only [restoreStorage, Outcome.bind_ok, Outcome.pure_ok] at h
  obtain ⟨s, hadmin, _, _, rfl⟩ := h
  have hs := (requireAdmin_ok hadmin).1
  have hid : s.id = storageId := storageLocation_id hs
  exact .single (.restored (hid ▸ hs))

theorem createStorage_chain {payload : StorageIn}
    (h : createStorage ctx db payload = .ok (row, db')) : StockChain Recount db db' := by
  simp only [createStorage, Outcome.bind_ok, Outcome.check_ok, exists_const, Outcome.pure_ok,
    Prod.mk.injEq] at h
  obtain ⟨hfresh, _, _, rfl, rfl⟩ := h
  exact .single (.created hfresh rfl)

end Storage

/-- The count corrections of a run that `exec_chain` has to know about. -/
def AdjustMeets (Recount : Db → Bucket → Decimal → Prop) (call : Call) (db : Db) : Prop :=
  match call.request with
  | .ledger (.adjustStock payload) =>
    Recount db (payload.bucket call.ctx.workspaceId) payload.actualQuantity
  | _ => True

theorem ledgerOp_chain {ctx : Ctx} {op : LedgerOp}
    (hcond : AdjustMeets Recount ⟨ctx, .ledger op⟩ db)
    (h : op.exec ctx db = .ok db') : StockChain Recount db db' := by
  cases op with
  | adjustStock payload =>
    obtain ⟨⟨e, _⟩, hop, rfl⟩ := Outcome.map_ok.mp h
    exact adjustStock_chain hcond hop
  | addStock payload =>
    obtain ⟨⟨e, _⟩, hop, rfl⟩ := Outcome.map_ok.mp h
    exact addStock_chain hop
  | removeStock payload =>
    obtain ⟨⟨e, _⟩, hop, rfl⟩ := Outcome.map_ok.mp h
    exact removeStock_chain hop
  | moveStock payload =>
    obtain ⟨⟨⟨outEntry, inEntry⟩, _⟩, hop, rfl⟩ := Outcome.map_ok.mp h
    exact moveStock_chain hop
  | moveQuantity args =>
    obtain ⟨⟨⟨outEntry, inEntry⟩, _⟩, hop, rfl⟩ := Outcome.map_ok.mp h
    exact moveQuantity_chain args.quantityPos hop
  | receive order payload =>
    obtain ⟨⟨result, _⟩, hop, rfl⟩ := Outcome.map_ok.mp h
    exact receive_chain hop
  | applyConsumeLines args =>
    obtain ⟨⟨rows, _⟩, hop, rfl⟩ := Outcome.map_ok.mp h
    exact applyConsumeLines_chain hop

def Request.isStock : Request → Prop
  | .createBuild _ | .patchBuild _ _ | .archiveBuild _ | .restoreBuild _ | .consumeBuild _ _
  | .createBuildStage _ _ | .consumeBuildStage _ _ _ => False
  | _ => True

theorem stockRequest_chain (hstock : call.request.isStock) (hcond : AdjustMeets Recount call db)
    (h : exec call db = .ok db') : StockChain Recount db db' := by
  obtain ⟨ctx, request⟩ := call
  cases request with
  | ledger op => exact ledgerOp_chain hcond h
  | receiveOrder orderId payload =>
    obtain ⟨⟨result, _⟩, hop, rfl⟩ := Outcome.map_ok.mp h
    simp only [receiveOrder, Outcome.bind_ok, Outcome.mapError_ok] at hop
    obtain ⟨order, _, hreceive⟩ := hop
    exact receive_chain hreceive
  | buildKit buildId storageId =>
    obtain ⟨⟨lines, _⟩, hop, rfl⟩ := Outcome.map_ok.mp h
    simp only [buildKit, Outcome.bind_ok] at hop
    obtain ⟨_, _, _, _, hkit⟩ := hop
    exact kitResponse_chain hkit
  | buildStageKit buildId stageId storageId =>
    obtain ⟨⟨lines, _⟩, hop, rfl⟩ := Outcome.map_ok.mp h
    simp only [buildStageKit, Outcome.bind_ok] at hop
    obtain ⟨_, _, _, _, hkit⟩ := hop
    exact kitResponse_chain hkit
  | createStorage payload =>
    obtain ⟨⟨row, _⟩, hop, rfl⟩ := Outcome.map_ok.mp h
    exact createStorage_chain hop
  | patchStorage storageId payload =>
    obtain ⟨⟨row, _⟩, hop, rfl⟩ := Outcome.map_ok.mp h
    exact patchStorage_chain hop
  | archiveStorage storageId => exact archiveStorage_chain h
  | restoreStorage storageId => exact restoreStorage_chain h
  | editCatalogue catalogue =>
    cases h
    exact .single (.elsewhere ⟨rfl, rfl, rfl⟩ ⟨rfl, rfl, rfl⟩)
  | createBuild | patchBuild | archiveBuild | restoreBuild | consumeBuild | createBuildStage
  | consumeBuildStage => exact hstock.elim

/-- Every accepted request is a chain of ledger steps. -/
theorem exec_chain (hcond : AdjustMeets Recount call db) (h : exec call db = .ok db') :
    LedgerChain Recount db db' := by
  by_cases hstock : call.request.isStock
  · exact (stockRequest_chain hstock hcond h).ledger
  obtain ⟨ctx, request⟩ := call
  cases request with
  | createBuild payload =>
    obtain ⟨⟨build, _⟩, hop, rfl⟩ := Outcome.map_ok.mp h
    exact createBuild_chain hop
  | patchBuild buildId payload =>
    obtain ⟨⟨build, _⟩, hop, rfl⟩ := Outcome.map_ok.mp h
    exact patchBuild_chain hop
  | archiveBuild buildId => exact archiveBuild_chain h
  | restoreBuild buildId =>
    simp only [exec, restoreBuild, Outcome.bind_ok, Outcome.pure_ok] at h
    obtain ⟨_, _, rfl⟩ := h
    exact .single (.builds ⟨rfl, rfl, rfl⟩)
  | consumeBuild buildId payload =>
    obtain ⟨⟨result, _⟩, hop, rfl⟩ := Outcome.map_ok.mp h
    simp only [consumeBuild, Outcome.bind_ok, Outcome.mapError_ok] at hop
    obtain ⟨_, _, _, _, _, _, hconsume⟩ := hop
    exact consume_chain hconsume
  | createBuildStage buildId payload =>
    obtain ⟨⟨stage, _⟩, hop, rfl⟩ := Outcome.map_ok.mp h
    simp only [createBuildStage, Outcome.bind_ok, Outcome.mapError_ok] at hop
    obtain ⟨_, _, _, _, hcreate⟩ := hop
    exact .single (.builds (createStage_same hcreate))
  | consumeBuildStage buildId stageId payload =>
    obtain ⟨⟨result, _⟩, hop, rfl⟩ := Outcome.map_ok.mp h
    simp only [consumeBuildStage, Outcome.bind_ok, Outcome.mapError_ok] at hop
    obtain ⟨_, _, _, _, _, _, hconsume⟩ := hop
    exact consumeStage_chain hconsume
  | ledger | receiveOrder | buildKit | buildStageKit | createStorage | patchStorage
  | archiveStorage | restoreStorage | editCatalogue => exact absurd trivial hstock

end StockManager
