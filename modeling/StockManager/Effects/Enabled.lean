import StockManager.Effects.StageOrder

/-! # When the build services go through

With row ids that are not in use yet, a service fails only on its own checks. -/

namespace StockManager

/-- No id the context will draw is in use. -/
structure FreshDraws (ctx : Ctx) (db : Db) : Prop where
  injective : Function.Injective ctx.draw
  entries : ∀ r ∈ db.stockEntries, ∀ path, r.id ≠ ctx.draw path
  lots : ∀ r ∈ db.lots, ∀ path, r.id ≠ ctx.draw path

/-- The rows that `db'` has more got their ids from the context. -/
structure DrawsIds (ctx : Ctx) (db db' : Db) : Prop where
  entries : ∀ r ∈ db'.stockEntries, r ∈ db.stockEntries ∨ ∃ path, r.id = ctx.draw path
  lots : ∀ r ∈ db'.lots, r ∈ db.lots ∨ ∃ path, r.id = ctx.draw path

section Ids

variable {ctx : Ctx} {db db' db'' : Db} {i j : ℕ}

theorem le_sum_map {α : Type} {f : α → ℕ} {rows : List α} {r : α} (hr : r ∈ rows) :
    f r ≤ (rows.map f).sum := List.le_sum_of_mem (List.mem_map_of_mem hr)

theorem exists_freshDraws (db : Db) (workspaceId : Uuid) :
    ∃ ctx : Ctx, ctx.workspaceId = workspaceId ∧ FreshDraws ctx db := by
  let bound := (db.stockEntries.map (·.id)).sum + (db.lots.map (·.id)).sum
  let ctx : Ctx :=
    { workspaceId := workspaceId
      userId := none
      role := .owner
      clock := fun _ => 0
      draw := fun path => bound + 1 + Encodable.encode path }
  have habove : ∀ path, bound < ctx.draw path := fun path =>
    lt_of_lt_of_le (Nat.lt_succ_self bound) (Nat.le_add_right _ _)
  refine ⟨ctx, rfl, ?_, ?_, ?_⟩
  · intro a b hab
    exact Encodable.encode_injective (Nat.add_left_cancel hab)
  · intro r hr path
    have hle : r.id ≤ bound := le_trans (le_sum_map hr) (Nat.le_add_right _ _)
    exact ne_of_lt (lt_of_le_of_lt hle (habove path))
  · intro r hr path
    have hle : r.id ≤ bound := le_trans (le_sum_map hr) (Nat.le_add_left _ _)
    exact ne_of_lt (lt_of_le_of_lt hle (habove path))

theorem DrawsIds.refl (ctx : Ctx) (db : Db) : DrawsIds ctx db db :=
  ⟨fun _ hr => Or.inl hr, fun _ hr => Or.inl hr⟩

theorem DrawsIds.trans (h : DrawsIds ctx db db') (k : DrawsIds ctx db' db'') :
    DrawsIds ctx db db'' := by
  constructor
  case entries =>
    intro r hr
    rcases k.entries r hr with hr | hpath
    · exact h.entries r hr
    · exact Or.inr hpath
  case lots =>
    intro r hr
    rcases k.lots r hr with hr | hpath
    · exact h.lots r hr
    · exact Or.inr hpath

theorem DrawsIds.of_child (h : DrawsIds (ctx.child i) db db') : DrawsIds ctx db db' := by
  constructor
  case entries => exact fun r hr => (h.entries r hr).imp_right fun ⟨path, hid⟩ => ⟨i :: path, hid⟩
  case lots => exact fun r hr => (h.lots r hr).imp_right fun ⟨path, hid⟩ => ⟨i :: path, hid⟩

theorem FreshDraws.child (h : FreshDraws ctx db) (i : ℕ) : FreshDraws (ctx.child i) db := by
  constructor
  case injective => exact fun a b hab => (List.cons.inj (h.injective hab)).2
  case entries => exact fun r hr path => h.entries r hr (i :: path)
  case lots => exact fun r hr path => h.lots r hr (i :: path)

theorem FreshDraws.keep (h : FreshDraws (ctx.child j) db) (hinj : Function.Injective ctx.draw)
    (hdraws : DrawsIds (ctx.child i) db db') (hij : i ≠ j) : FreshDraws (ctx.child j) db' := by
  have hapart : ∀ p q, ctx.draw (i :: p) ≠ ctx.draw (j :: q) :=
    fun p q heq => hij (List.cons.inj (hinj heq)).1
  constructor
  case injective => exact h.injective
  case entries =>
    intro r hr path
    rcases hdraws.entries r hr with hr | ⟨p, hid⟩
    · exact h.entries r hr path
    · exact hid ▸ hapart p path
  case lots =>
    intro r hr path
    rcases hdraws.lots r hr with hr | ⟨p, hid⟩
    · exact h.lots r hr path
    · exact hid ▸ hapart p path

theorem FreshDraws.after (h : FreshDraws ctx db) (hdraws : DrawsIds (ctx.child i) db db')
    (hij : i ≠ j) : FreshDraws (ctx.child j) db' := (h.child j).keep h.injective hdraws hij

theorem insertStockEntry_enabled {row : StockEntry} {path : List ℕ} (h : FreshDraws ctx db)
    (hid : row.id = ctx.draw path) : ∃ db', db.insertStockEntry row = .ok db' ∧
      DrawsIds ctx db db' := by
  refine ⟨_, insertStockEntry_ok.mpr ⟨fun r hr => hid ▸ h.entries r hr path, rfl⟩, ?_, ?_⟩
  · intro r hr
    rcases List.mem_append.mp hr with hr | hr
    · exact Or.inl hr
    · exact Or.inr ⟨path, (List.mem_singleton.mp hr) ▸ hid⟩
  · exact fun r hr => Or.inl hr

end Ids

section Releases

variable {ctx : Ctx} {db : Db} {build : Build}

theorem writeReleases_enabled (h : FreshDraws ctx db) (buildStageId : Option Uuid)
    (now : Timestamp) (plan : List (StockEntry × Decimal)) :
    ∃ n db', writeReleases ctx db build buildStageId now plan = .ok (n, db') ∧
      DrawsIds ctx db db' := by
  induction plan generalizing ctx db with
  | nil => exact ⟨0, db, rfl, DrawsIds.refl ctx db⟩
  | cons item plan ih =>
    obtain ⟨reserve, quantity⟩ := item
    let row := releaseRow ctx (ctx.child 0).uuid4 build reserve quantity buildStageId now
    have hrow : row.id = (ctx.child 0).draw [] := rfl
    obtain ⟨db₁, hinsert, hids⟩ := insertStockEntry_enabled (h.child 0) hrow
    obtain ⟨n, db₂, hrest, hids'⟩ := ih (h.after hids Nat.zero_ne_one)
    refine ⟨n + 1, db₂, ?_, hids.of_child.trans hids'.of_child⟩
    simp only [writeReleases, Outcome.bind_ok, Outcome.pure_ok]
    exact ⟨db₁, hinsert, (n, db₂), hrest, rfl⟩

theorem releaseReservations_enabled (h : FreshDraws ctx db) (build : Build) :
    ∃ n db', releaseReservations ctx db build = .ok (n, db') ∧ DrawsIds ctx db db' := by
  unfold releaseReservations
  simp only
  split
  next => exact ⟨0, db, rfl, DrawsIds.refl ctx db⟩
  next => exact writeReleases_enabled h none ctx.utcnow _

theorem releaseReservationAmounts_enabled (h : FreshDraws ctx db) (build : Build)
    (amounts : List (Uuid × Decimal)) (buildStageId : Option Uuid) :
    ∃ n db', releaseReservationAmounts ctx db build amounts buildStageId = .ok (n, db') ∧
      DrawsIds ctx db db' := by
  unfold releaseReservationAmounts
  simp only
  split
  next => exact ⟨0, db, rfl, DrawsIds.refl ctx db⟩
  next => exact writeReleases_enabled h buildStageId ctx.utcnow _

end Releases

def demandOn (workspaceId : Uuid) (lines : List ConsumeLineIn) (b : Bucket) : ℤ :=
  tally (fun l => l.bucket workspaceId = b) (·.quantity) lines

/-- What the lines supply for one BOM entry. -/
def suppliedFor (lines : List ConsumeLineIn) (entryId : Uuid) : ℤ :=
  tally (fun l => l.projectEntryId = entryId) (·.quantity) lines

/-- A line the loop accepts, as far as it depends on the catalogue: the entry's own part. -/
structure LineAccepted (db : Db) (workspaceId : Uuid) (entriesById : List (Uuid × ProjectEntry))
    (requiredByEntry : List (Uuid × ℤ)) (line : ConsumeLineIn) : Prop where
  entry : ∃ e, Dict.find line.projectEntryId entriesById = some e ∧ e.consumable ∧
    e.id ∈ Dict.keys requiredByEntry ∧ e.partId = some line.partId
  refs : RefsIn db workspaceId line.storageLocationId line.lotId

section Lines

variable {ctx : Ctx} {db db' : Db} {build : Build} {project : Project}
  {entriesById : List (Uuid × ProjectEntry)} {requiredByEntry : List (Uuid × ℤ)}
  {lines : List ConsumeLineIn} {line : ConsumeLineIn}

theorem le_demandOn (workspaceId : Uuid) (hline : line ∈ lines) :
    line.quantity ≤ demandOn workspaceId lines (line.bucket workspaceId) := by
  have hnonneg : ∀ l ∈ lines, 0 ≤ l.quantity := fun l _ => le_of_lt l.quantityPos
  induction lines with
  | nil => cases hline
  | cons l lines ih =>
    have hrest : 0 ≤ demandOn workspaceId lines (line.bucket workspaceId) :=
      Tally.tally_nonneg _ _ fun m hm _ => hnonneg m (List.mem_cons_of_mem _ hm)
    rw [demandOn, Tally.tally_cons, ← demandOn]
    rcases List.mem_cons.mp hline with rfl | hline
    · rw [if_pos rfl]
      omega
    · have hle := ih hline fun m hm => hnonneg m (List.mem_cons_of_mem _ hm)
      have hhead := l.quantityPos
      split <;> omega

theorem checkRefs_ok {workspaceId : Uuid} {storageLocationId lotId : Option Uuid}
    (h : RefsIn db workspaceId storageLocationId lotId) (e₁ e₂ : Err) :
    checkStorageRef db workspaceId storageLocationId e₁ = .ok () ∧
      checkLotRef db workspaceId lotId e₂ = .ok () := by
  simp only [checkStorageRef, checkLotRef, Outcome.check_ok, Option.isSome_iff_exists,
    belongs_eq_some]
  exact ⟨h.storage, h.lot⟩

theorem consumeLine_enabled (build : Build) (project : Project) (h : FreshDraws ctx db) (now : Timestamp) (buildStageId : Option Uuid)
    (haccepted : LineAccepted db ctx.workspaceId entriesById requiredByEntry line)
    (hqty : (line.quantity : Decimal) ≤ balance db.stockEntries (line.bucket ctx.workspaceId)) :
    ∃ row db', consumeLine ctx db build project entriesById requiredByEntry now buildStageId
      line = .ok (row, db') ∧ DrawsIds ctx db db' := by
  obtain ⟨e, hfind, ⟨hdnp, htype, hsome⟩, hkey, hpart⟩ := haccepted.entry
  let row : StockEntry :=
    { newStockEntry ctx ctx.uuid4 line.partId (-line.quantity)
        (unitForPart (db.part line.partId)) .onHand .buildConsume now with
      lotId := line.lotId
      storageLocationId := line.storageLocationId
      buildId := some build.id
      buildStageId := buildStageId
      projectId := some project.id }
  have hid : row.id = ctx.draw [] := rfl
  obtain ⟨db', hinsert, hids⟩ := insertStockEntry_enabled h hid
  refine ⟨row, db', ?_, hids⟩
  have hrefs := checkRefs_ok haccepted.refs
  simp only [consumeLine, Outcome.bind_ok, Outcome.check_ok, exists_const, Outcome.orRaise_ok,
    Outcome.each_ok, Outcome.pure_ok, currentQuantity_bucket]
  refine ⟨e, hfind, ⟨htype, hsome⟩, hdnp, hkey, ?_, (), (hrefs (.build "") _).2, (),
    (hrefs _ (.build "")).1, hqty, db', hinsert, rfl⟩
  intro partId hmem
  rw [hpart, Option.toList_some, List.mem_singleton] at hmem
  rw [checkLinePart, if_pos hmem.symm]

theorem LineAccepted.mono {workspaceId : Uuid}
    (h : LineAccepted db workspaceId entriesById requiredByEntry line)
    (hstorage : db'.storageLocations = db.storageLocations) (hlots : db'.lots = db.lots) :
    LineAccepted db' workspaceId entriesById requiredByEntry line := by
  refine ⟨h.entry, ?_, ?_⟩
  · simpa only [Db.storageLocation, hstorage] using h.refs.storage
  · simpa only [Db.lot, hlots] using h.refs.lot

theorem consumeLines_enabled (build : Build) (project : Project) (h : FreshDraws ctx db)
    (now : Timestamp) (buildStageId : Option Uuid)
    (haccepted : ∀ l ∈ lines, LineAccepted db ctx.workspaceId entriesById requiredByEntry l)
    (henough : ∀ l ∈ lines, (demandOn ctx.workspaceId lines (l.bucket ctx.workspaceId) : Decimal) ≤
      balance db.stockEntries (l.bucket ctx.workspaceId)) :
    ∃ rows db', consumeLines ctx db build project entriesById requiredByEntry now buildStageId
      lines = .ok (rows, db') ∧ DrawsIds ctx db db' := by
  induction lines generalizing ctx db with
  | nil => exact ⟨[], db, rfl, DrawsIds.refl ctx db⟩
  | cons line lines ih =>
    have hqty : (line.quantity : Decimal) ≤
        balance db.stockEntries (line.bucket ctx.workspaceId) := by
      have hle := le_demandOn ctx.workspaceId (List.mem_cons_self (a := line) (l := lines))
      exact le_trans (Int.cast_le.mpr hle) (henough line (List.mem_cons_self ..))
    obtain ⟨row, db₁, hline, hids⟩ := consumeLine_enabled build project (h.child 0)
      now buildStageId (haccepted line (List.mem_cons_self ..)) hqty
    obtain ⟨hinsert, hdrawn, _, _⟩ := consumeLine_rows hline
    obtain ⟨_, rfl⟩ := insertStockEntry_ok.mp hinsert
    have hrest : ∀ l ∈ lines,
        (demandOn ctx.workspaceId lines (l.bucket ctx.workspaceId) : Decimal) ≤
          balance (db.stockEntries ++ [row]) (l.bucket ctx.workspaceId) := by
      intro l hl
      have hall := henough l (List.mem_cons_of_mem _ hl)
      rw [demandOn, Tally.tally_cons, ← demandOn] at hall
      rw [hdrawn.balance, Movement.apply, Function.update_apply, Ctx.child_workspaceId]
      split at hall
      next hsame =>
        rw [if_pos hsame.symm, hsame]
        rw [Int.cast_add] at hall
        linarith
      next hother =>
        rw [if_neg (Ne.symm hother)]
        simpa using hall
    have haccepted' : ∀ l ∈ lines, LineAccepted { db with stockEntries := db.stockEntries ++ [row] }
        ctx.workspaceId entriesById requiredByEntry l :=
      fun l hl => (haccepted l (List.mem_cons_of_mem _ hl)).mono rfl rfl
    obtain ⟨rows, db₂, hlines, hids'⟩ := ih (h.after hids Nat.zero_ne_one) haccepted' hrest
    refine ⟨row :: rows, db₂, ?_, hids.of_child.trans hids'.of_child⟩
    simp only [consumeLines, Outcome.bind_ok, Outcome.pure_ok]
    exact ⟨(row, _), hline, (rows, db₂), hlines, rfl⟩

theorem consumeRows_balance {workspaceId : Uuid} {rows : List StockEntry}
    (h : List.Forall₂ (ConsumeRow workspaceId build) lines rows) (b : Bucket) :
    balance rows b = -demandOn workspaceId lines b := by
  induction h with
  | nil => simp [demandOn]
  | @cons line row lines rows hrow _ ih =>
    rw [balance_cons, ih, demandOn, demandOn, Tally.tally_cons, hrow.bucket, hrow.delta]
    simp only [hrow.status, true_and]
    split
    next => push_cast; ring
    next => simp

theorem checkDemand_ok : (∀ item ∈ Dict.totals
      (fun l : ConsumeLineIn => (l.partId, l.lotId, l.storageLocationId)) (·.quantity) lines,
      checkDemand ctx db item = .ok ()) ↔
    ∀ l ∈ lines, (demandOn ctx.workspaceId lines (l.bucket ctx.workspaceId) : Decimal) ≤
      balance db.stockEntries (l.bucket ctx.workspaceId) := by
  have hdemand : ∀ l ∈ lines, ∀ total, total = tally (fun m : ConsumeLineIn =>
        (m.partId, m.lotId, m.storageLocationId) = (l.partId, l.lotId, l.storageLocationId))
        (·.quantity) lines →
      (checkDemand ctx db ((l.partId, l.lotId, l.storageLocationId), total) = .ok () ↔
        (demandOn ctx.workspaceId lines (l.bucket ctx.workspaceId) : Decimal) ≤
          balance db.stockEntries (l.bucket ctx.workspaceId)) := by
    rintro l _ _ rfl
    have hsame : tally (fun m : ConsumeLineIn => (m.partId, m.lotId, m.storageLocationId) =
        (l.partId, l.lotId, l.storageLocationId)) (·.quantity) lines =
        demandOn ctx.workspaceId lines (l.bucket ctx.workspaceId) := by
      apply Tally.tally_congr
      · intro m _
        simp only [ConsumeLineIn.bucket, Bucket.mk.injEq, Prod.mk.injEq, Option.some.injEq,
          true_and]
      · exact fun _ _ _ => rfl
    simp only [checkDemand, Outcome.check_ok, currentQuantity_bucket]
    rw [hsame]
    rfl
  constructor
  · intro h l hl
    exact (hdemand l hl _ rfl).mp (h _ (Dict.mem_totals.mpr ⟨⟨l, hl, rfl⟩, rfl⟩))
  · rintro h ⟨key, total⟩ hitem
    obtain ⟨⟨l, hl, rfl⟩, htotal⟩ := Dict.mem_totals.mp hitem
    exact (hdemand l hl total htotal).mpr (h l hl)

theorem applyConsumeLines_enabled (build : Build) (project : Project) (h : FreshDraws ctx db)
    (now : Timestamp) (buildStageId : Option Uuid)
    (haccepted : ∀ l ∈ lines, LineAccepted db ctx.workspaceId entriesById requiredByEntry l)
    (henough : ∀ l ∈ lines, (demandOn ctx.workspaceId lines (l.bucket ctx.workspaceId) : Decimal) ≤
      balance db.stockEntries (l.bucket ctx.workspaceId))
    (hcovered : ∀ item ∈ requiredByEntry, item.2 ≤ suppliedFor lines item.1) :
    ∃ rows db', applyConsumeLines ctx db build project lines entriesById requiredByEntry now
      buildStageId = .ok (rows, db') ∧ DrawsIds ctx db db' := by
  obtain ⟨rows, db', hlines, hids⟩ := consumeLines_enabled build project h
    now buildStageId haccepted henough
  refine ⟨rows, db', ?_, hids⟩
  simp only [applyConsumeLines, Outcome.bind_ok, Outcome.each_ok, exists_const, Outcome.pure_ok]
  refine ⟨?_, (rows, db'), hlines, ?_, rfl⟩
  · exact checkDemand_ok.mpr henough
  · rintro ⟨entryId, req⟩ hitem
    have hreq := hcovered (entryId, req) hitem
    simp only [checkCovered]
    split
    next => rfl
    next =>
      rw [Outcome.check_ok, Dict.getD_find_totals]
      exact hreq

end Lines

section Finish

variable {ctx : Ctx} {db db' : Db} {build : Build} {project : Project} {payload : ConsumeIn}

theorem SameLedger.drawsIds (h : SameLedger db db') (ctx : Ctx) : DrawsIds ctx db db' := by
  constructor
  case entries => exact fun r hr => Or.inl (h.stockEntries ▸ hr)
  case lots => exact fun r hr => Or.inl (h.lots ▸ hr)

/-- The project's sub-assembly part, if it has one, is a part of the workspace. -/
def OutputInWorkspace (db : Db) (workspaceId : Uuid) (project : Project) : Prop :=
  ∀ partId ∈ project.associatedSubassemblyPartId, ∃ part, db.part partId = some part ∧
    part.workspaceId = workspaceId

theorem produceOutput_enabled (build : Build) (h : FreshDraws ctx db)
    (hpart : OutputInWorkspace db ctx.workspaceId project) (lotName : Option String)
    (now : Timestamp) : ∃ output db',
      produceOutput ctx db build project none lotName now = .ok (output, db') ∧
        DrawsIds ctx db db' := by
  unfold produceOutput
  split
  next => exact ⟨none, db, rfl, DrawsIds.refl ctx db⟩
  next partId hsome =>
    obtain ⟨part, hfound, hws⟩ := hpart partId hsome
    have hlot : ∀ r ∈ db.lots, r.id ≠ (ctx.child 0).uuid4 := fun r hr => h.lots r hr [0]
    have hentry : ∀ r ∈ db.stockEntries, r.id ≠ (ctx.child 1).uuid4 :=
      fun r hr => h.entries r hr [1]
    simp only [Outcome.bind_ok, partInWorkspace_ok, insertLot_ok, insertStockEntry_ok,
      Outcome.pure_ok]
    refine ⟨_, _, ⟨part, ⟨hfound, hws⟩, none, rfl, _, ⟨hlot, rfl⟩, _, ⟨hentry, rfl⟩, rfl⟩, ?_, ?_⟩
    · intro r hr
      rcases List.mem_append.mp hr with hr | hr
      · exact Or.inl hr
      · exact Or.inr ⟨[1], (List.mem_singleton.mp hr) ▸ rfl⟩
    · intro r hr
      rcases List.mem_append.mp hr with hr | hr
      · exact Or.inl hr
      · exact Or.inr ⟨[0], (List.mem_singleton.mp hr) ▸ rfl⟩

theorem finishBuild_enabled (build : Build) (h : FreshDraws ctx db)
    (hpart : OutputInWorkspace db ctx.workspaceId project)
    (hstorage : payload.outputStorageLocationId = none) (now : Timestamp) : ∃ output db',
      finishBuild ctx db build project payload now = .ok (output, db') := by
  obtain ⟨output, db₁, houtput, hids⟩ := produceOutput_enabled build (h.child 0) hpart
    payload.outputLotName now
  have hsame : SameLedger db₁ (completeBuild ctx db₁ build (output.map Prod.fst) now) :=
    completeBuild_same build (output.map Prod.fst) now
  obtain ⟨n, db₂, hrelease, _⟩ := releaseReservations_enabled
    (h.after (hids.trans (hsame.drawsIds _)) Nat.zero_ne_one) build
  refine ⟨output, db₂, ?_⟩
  simp only [finishBuild, Outcome.bind_ok, Outcome.pure_ok, hstorage]
  exact ⟨(output, db₁), houtput, (n, db₂), hrelease, rfl⟩

theorem Appends.sameLots {rows : List StockEntry} (h : Appends db db' rows) :
    db'.lots = db.lots ∧ db'.storageLocations = db.storageLocations := by
  rw [h.eq]
  exact ⟨rfl, rfl⟩

theorem OutputInWorkspace.same {workspaceId : Uuid} (h : OutputInWorkspace db workspaceId project)
    (hsame : SameBom db db') : OutputInWorkspace db' workspaceId project := by
  simpa only [OutputInWorkspace, Db.part, hsame.parts] using h

theorem consumeStage_enabled {stage : BuildStage} (h : FreshDraws ctx db)
    (hb : db.build build.id = some build) (hs : db.buildStage stage.id = some stage)
    (hactive : build.archivedAt = none) (hopen : build.status.isOpen)
    (hpending : stage.status ≠ .complete)
    (hearlier : ∀ s ∈ (listStages db ctx.workspaceId build).takeWhile (fun s => s.id ≠ stage.id),
      s.status = .complete)
    (hsome : requiredOfStage db ctx.workspaceId build project stage.id ≠ [])
    (haccepted : ∀ l ∈ payload.lines, LineAccepted db ctx.workspaceId
      (projectEntriesById db ctx.workspaceId project)
      (requiredOfStage db ctx.workspaceId build project stage.id) l)
    (henough : ∀ l ∈ payload.lines,
      (demandOn ctx.workspaceId payload.lines (l.bucket ctx.workspaceId) : Decimal) ≤
        balance db.stockEntries (l.bucket ctx.workspaceId))
    (hcovered : ∀ item ∈ requiredOfStage db ctx.workspaceId build project stage.id,
      item.2 ≤ suppliedFor payload.lines item.1)
    (hpart : OutputInWorkspace db ctx.workspaceId project)
    (hstorage : payload.outputStorageLocationId = none) : ∃ result db',
      consumeStage ctx db build project stage payload = .ok (result, db') := by
  obtain ⟨n, db₁, hrelease, hids⟩ := releaseReservationAmounts_enabled (h.child 0) build
    (releaseAmounts (projectEntriesById db ctx.workspaceId project)
      (requiredOfStage db ctx.workspaceId build project stage.id)) (some stage.id)
  obtain ⟨released, happends, hreleased⟩ := releaseReservationAmounts_rows hrelease
  have hlots := happends.sameLots
  have hbalance : balance db₁.stockEntries = balance db.stockEntries := by
    rw [happends.eq]
    exact balance_append_reserved fun e he => (releases_reserved hreleased e he).1
  have haccepted' : ∀ l ∈ payload.lines, LineAccepted db₁ (ctx.child 1).workspaceId
      (projectEntriesById db ctx.workspaceId project)
      (requiredOfStage db ctx.workspaceId build project stage.id) l :=
    fun l hl => (haccepted l hl).mono hlots.2 hlots.1
  obtain ⟨rows, db₂, hlines, hids'⟩ := applyConsumeLines_enabled build project
    (h.after hids Nat.zero_ne_one) ctx.utcnow (some stage.id) haccepted'
    (fun l hl => hbalance ▸ henough l hl) hcovered
  have hdrawn := (consumeLines_rows (applyConsumeLines_ok hlines)).1
  have hbom : SameBom db (markStageConsumed ctx db₂ build stage ctx.utcnow) := by
    have hrows := happends.sameBom.trans hdrawn.sameBom
    exact ⟨hrows.parts, hrows.projects, hrows.projectEntries⟩
  -- What the first two inner calls drew is out of the way of the third.
  have hfresh : FreshDraws (ctx.child 2) (markStageConsumed ctx db₂ build stage ctx.utcnow) := by
    have hsame : SameLedger db₂ (markStageConsumed ctx db₂ build stage ctx.utcnow) :=
      markStageConsumed_same build stage ctx.utcnow
    have hfirst : FreshDraws (ctx.child 2) db₁ := h.after hids (by decide)
    exact hfirst.keep h.injective (hids'.trans (hsame.drawsIds _)) (by decide)
  obtain ⟨output, db₃, hfinish⟩ := finishBuild_enabled build hfresh (hpart.same hbom) hstorage
    ctx.utcnow
  have hrun : ∃ r, consumeStage ctx db build project stage payload = .ok r := by
    simp only [consumeStage, hb, hs, Option.getD_some, Outcome.bind_ok, Outcome.check_ok,
      exists_const, Outcome.each_ok]
    let outstanding := (listStages db ctx.workspaceId build).filter
      fun s => s.id ≠ stage.id ∧ s.status ≠ .complete
    by_cases hlast : outstanding = []
    · refine ⟨(⟨build.id, stage.id, .complete, rows, 0, output⟩, db₃), hactive, hopen, hpending,
        hearlier, hsome, (n, db₁), hrelease, (rows, db₂), hlines, ?_⟩
      rw [if_pos hlast]
      simp only [Outcome.bind_ok, Outcome.pure_ok]
      exact ⟨(output, db₃), hfinish, rfl⟩
    · refine ⟨(⟨build.id, stage.id, .inProgress, rows, outstanding.length, none⟩,
        markStageConsumed ctx db₂ build stage ctx.utcnow), hactive, hopen, hpending, hearlier,
        hsome, (n, db₁), hrelease, (rows, db₂), hlines, ?_⟩
      rw [if_neg hlast]
      rfl
  obtain ⟨⟨result, db'⟩, hresult⟩ := hrun
  exact ⟨result, db', hresult⟩

/-- A consume of accepted, covered and stocked lines goes through. -/
theorem consume_enabled (h : FreshDraws ctx db) (hopen : build.status.isOpen)
    (haccepted : ∀ l ∈ payload.lines, LineAccepted db ctx.workspaceId
      (projectEntriesById db ctx.workspaceId project)
      (requiredOfBuild db ctx.workspaceId build project) l)
    (henough : ∀ l ∈ payload.lines,
      (demandOn ctx.workspaceId payload.lines (l.bucket ctx.workspaceId) : Decimal) ≤
        balance db.stockEntries (l.bucket ctx.workspaceId))
    (hcovered : ∀ item ∈ requiredOfBuild db ctx.workspaceId build project,
      item.2 ≤ suppliedFor payload.lines item.1)
    (hpart : OutputInWorkspace db ctx.workspaceId project)
    (hstorage : payload.outputStorageLocationId = none) : ∃ result db',
      consume ctx db build project payload = .ok (result, db') := by
  obtain ⟨n, db₁, hrelease, hids⟩ := releaseReservations_enabled (h.child 0) build
  obtain ⟨released, happends, hreleased⟩ := releaseReservations_rows hrelease
  have hbom := happends.sameBom
  have hbalance : balance db₁.stockEntries = balance db.stockEntries := by
    rw [happends.eq]
    exact balance_append_reserved fun e he => (releases_reserved hreleased e he).1
  have hentries : projectEntriesById db₁ ctx.workspaceId project =
      projectEntriesById db ctx.workspaceId project := by
    rw [happends.eq]
    rfl
  have hrequired : requiredOfBuild db₁ ctx.workspaceId build project =
      requiredOfBuild db ctx.workspaceId build project := by
    rw [happends.eq]
    rfl
  have haccepted' : ∀ l ∈ payload.lines, LineAccepted db₁ (ctx.child 1).workspaceId
      (projectEntriesById db ctx.workspaceId project)
      (requiredOfBuild db ctx.workspaceId build project) l :=
    fun l hl => (haccepted l hl).mono happends.sameLots.2 happends.sameLots.1
  obtain ⟨rows, db₂, hlines, hids'⟩ := applyConsumeLines_enabled build project
    (h.after hids Nat.zero_ne_one) ctx.utcnow none haccepted'
    (fun l hl => hbalance ▸ henough l hl) hcovered
  have hdrawn := (consumeLines_rows (applyConsumeLines_ok hlines)).1
  have hfresh : FreshDraws (ctx.child 2) db₂ := by
    have hfirst : FreshDraws (ctx.child 2) db₁ := h.after hids (by decide)
    exact hfirst.keep h.injective hids' (by decide)
  obtain ⟨output, db₃, houtput, _⟩ := produceOutput_enabled build hfresh
    (hpart.same (hbom.trans hdrawn.sameBom)) payload.outputLotName ctx.utcnow
  refine ⟨⟨build.id, rows, output⟩,
    completeBuild ctx db₃ build (output.map Prod.fst) ctx.utcnow, ?_⟩
  rw [← hentries, ← hrequired] at hlines
  simp only [consume, Outcome.bind_ok, Outcome.check_ok, exists_const, Outcome.pure_ok, hstorage]
  exact ⟨hopen, (n, db₁), hrelease, (rows, db₂), hlines, (output, db₃), houtput, rfl⟩

end Finish

end StockManager
