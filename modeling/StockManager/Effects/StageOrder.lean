import StockManager.Effects.Allocation

/-! # The stages of a build, in order

The keys of the stage tables, the order in which stages are consumed, and what
consuming one leaves of the rows of builds and stages. -/

namespace StockManager

/-- What the primary keys, unique indexes and foreign keys of the stage tables promise. -/
structure WellStaged (db : Db) : Prop where
  ids : (db.buildStages.map (·.id)).Nodup
  sequences : ∀ s ∈ db.buildStages, ∀ t ∈ db.buildStages, s.archivedAt = none →
    t.archivedAt = none → s.buildId = t.buildId → s.sequence = t.sequence → s = t
  lines : LinesDistinct db
  stages : ∀ l ∈ db.buildStageLines, ∃ s ∈ db.buildStages, s.id = l.buildStageId

theorem WellStaged.empty {db : Db} (hstages : db.buildStages = [])
    (hlines : db.buildStageLines = []) : WellStaged db := by
  constructor
  case ids => simp [hstages]
  case sequences => simp [hstages]
  case lines => simp [LinesDistinct, hlines]
  case stages => simp [hlines]

section Order

variable {db : Db} {workspaceId : Uuid} {build : Build} {s t : BuildStage}

theorem mem_listStages : s ∈ listStages db workspaceId build ↔ s ∈ db.buildStages ∧
    s.workspaceId = workspaceId ∧ s.buildId = build.id ∧ s.archivedAt = none := by
  simp only [listStages, List.mem_insertionSort, List.mem_filter, decide_eq_true_eq]

theorem listStages_ids (h : WellStaged db) : (stageIdsOf db workspaceId build).Nodup := by
  have hperm : (stageIdsOf db workspaceId build).Perm
      ((db.buildStages.filter fun s => s.workspaceId = workspaceId ∧ s.buildId = build.id ∧
        s.archivedAt = none).map (·.id)) := (List.perm_insertionSort _ _).map _
  exact hperm.nodup_iff.mpr ((List.filter_sublist.map _).nodup h.ids)

theorem listStages_pairwise (h : WellStaged db) :
    (listStages db workspaceId build).Pairwise fun s t => s.sequence < t.sequence := by
  let before := fun a b : BuildStage => a.sequence < b.sequence ∨
    a.sequence = b.sequence ∧ (a.createdAt < b.createdAt ∨
      a.createdAt = b.createdAt ∧ a.id ≤ b.id)
  have : Std.Total before := ⟨fun a b => by grind⟩
  have : IsTrans BuildStage before := ⟨fun a b c => by grind⟩
  have hsorted : (listStages db workspaceId build).Pairwise before :=
    List.pairwise_insertionSort before _
  have hdistinct : (listStages db workspaceId build).Nodup :=
    List.Nodup.of_map _ (listStages_ids h)
  refine (hsorted.and hdistinct).imp_of_mem ?_
  rintro a b ha hb ⟨hab, hne⟩
  rw [mem_listStages] at ha hb
  obtain hlt | ⟨heq, _⟩ := hab
  · exact hlt
  · have hsame := h.sequences a ha.1 b hb.1 ha.2.2.2 hb.2.2.2 (ha.2.2.1.trans hb.2.2.1.symm) heq
    exact absurd hsame hne

theorem mem_takeWhile_key {α κ : Type} [DecidableEq κ] {key : α → κ} {rank : α → ℕ}
    {items : List α} (hkeys : (items.map key).Nodup)
    (hsorted : items.Pairwise fun a b => rank a < rank b) {t : α} (ht : t ∈ items) {s : α} :
    s ∈ items.takeWhile (fun a => key a ≠ key t) ↔ s ∈ items ∧ rank s < rank t := by
  induction items with
  | nil => cases ht
  | cons a items ih =>
    rw [List.map_cons, List.nodup_cons] at hkeys
    rw [List.pairwise_cons] at hsorted
    by_cases hkey : key a = key t
    · have ha : a = t := by
        rcases List.mem_cons.mp ht with rfl | ht
        · rfl
        · exact absurd (hkey ▸ List.mem_map_of_mem ht) hkeys.1
      subst ha
      simp only [ne_eq, not_true_eq_false, decide_false, Bool.false_eq_true, not_false_eq_true,
        List.takeWhile_cons_of_neg, List.not_mem_nil, false_iff, not_and, not_lt, List.mem_cons]
      rintro (rfl | hs)
      · exact le_rfl
      · exact le_of_lt (hsorted.1 s hs)
    · have ht' : t ∈ items := by
        rcases List.mem_cons.mp ht with rfl | ht
        · exact absurd rfl hkey
        · exact ht
      rw [List.takeWhile_cons_of_pos (by simpa using hkey), List.mem_cons, List.mem_cons,
        ih hkeys.2 hsorted.2 ht', or_and_right]
      refine or_congr ?_ Iff.rfl
      constructor
      · rintro rfl
        exact ⟨rfl, hsorted.1 t ht'⟩
      · exact And.left

theorem mem_earlier (h : WellStaged db) (ht : t ∈ listStages db workspaceId build) :
    s ∈ (listStages db workspaceId build).takeWhile (fun s => s.id ≠ t.id) ↔
      s ∈ listStages db workspaceId build ∧ s.sequence < t.sequence :=
  mem_takeWhile_key (listStages_ids h) (listStages_pairwise h) ht

theorem mem_earlierIds (h : WellStaged db) (ht : t ∈ listStages db workspaceId build)
    {id : Uuid} : id ∈ (stageIdsOf db workspaceId build).takeWhile (fun i => i ≠ t.id) ↔
      ∃ s ∈ listStages db workspaceId build, s.sequence < t.sequence ∧ s.id = id := by
  have hmap : (stageIdsOf db workspaceId build).takeWhile (fun i => i ≠ t.id) =
      ((listStages db workspaceId build).takeWhile fun s => s.id ≠ t.id).map (·.id) := by
    rw [stageIdsOf, List.takeWhile_map]
    rfl
  rw [hmap, List.mem_map]
  constructor
  · rintro ⟨s, hs, rfl⟩
    obtain ⟨hmem, hlt⟩ := (mem_earlier h ht).mp hs
    exact ⟨s, hmem, hlt, rfl⟩
  · rintro ⟨s, hmem, hlt, rfl⟩
    exact ⟨s, (mem_earlier h ht).mpr ⟨hmem, hlt⟩, rfl⟩

theorem stage_eq_of_id (h : WellStaged db) (hs : s ∈ db.buildStages) (ht : t ∈ db.buildStages)
    (hid : s.id = t.id) : s = t :=
  List.inj_on_of_nodup_map h.ids hs ht hid

theorem buildStage_of_mem (h : WellStaged db) (hs : s ∈ db.buildStages) :
    db.buildStage s.id = some s := by
  cases hfind : db.buildStage s.id with
  | none => simpa using List.find?_eq_none.mp hfind s hs
  | some r =>
    have hr := List.mem_of_find?_eq_some hfind
    rw [stage_eq_of_id h hr hs (buildStage_id hfind)]

end Order

/-- The parts and the BOM are the same. -/
structure SameBom (db db' : Db) : Prop where
  parts : db'.parts = db.parts
  projects : db'.projects = db.projects
  projectEntries : db'.projectEntries = db.projectEntries

theorem SameBom.trans {a b c : Db} (h : SameBom a b) (k : SameBom b c) : SameBom a c :=
  ⟨k.parts.trans h.parts, k.projects.trans h.projects,
    k.projectEntries.trans h.projectEntries⟩

theorem SameBom.bomLine {db db' : Db} (h : SameBom db db') {workspaceId entryId : Uuid}
    {project : Project} {entry : ProjectEntry} {part : Part}
    (hline : BomLine db workspaceId project entryId entry part) :
    BomLine db' workspaceId project entryId entry part := by
  constructor
  case found =>
    have hfound := hline.found
    rwa [projectEntriesById, projectEntriesOf, ← h.projectEntries] at hfound
  case consumable => exact hline.consumable
  case part =>
    have hpart := hline.part
    rwa [show db.part = db'.part from funext fun id => by rw [Db.part, Db.part, h.parts]] at hpart

/-- The columns of a build that consuming never writes. -/
structure SameBuildRow (b b' : Build) : Prop where
  id : b'.id = b.id
  workspaceId : b'.workspaceId = b.workspaceId
  projectId : b'.projectId = b.projectId
  quantity : b'.quantity = b.quantity
  archivedAt : b'.archivedAt = b.archivedAt

theorem SameBuildRow.refl (b : Build) : SameBuildRow b b := ⟨rfl, rfl, rfl, rfl, rfl⟩

theorem SameBuildRow.trans {a b c : Build} (h : SameBuildRow a b) (k : SameBuildRow b c) :
    SameBuildRow a c :=
  ⟨k.id.trans h.id, k.workspaceId.trans h.workspaceId, k.projectId.trans h.projectId,
    k.quantity.trans h.quantity, k.archivedAt.trans h.archivedAt⟩

theorem SameBuildRow.symm {a b : Build} (h : SameBuildRow a b) : SameBuildRow b a :=
  ⟨h.id.symm, h.workspaceId.symm, h.projectId.symm, h.quantity.symm, h.archivedAt.symm⟩

section Row

variable {db : Db} {build b : Build}

theorem listStages_row (h : SameBuildRow build b) (workspaceId : Uuid) :
    listStages db workspaceId b = listStages db workspaceId build := by
  simp only [listStages, h.id]

theorem linesOf_row (h : SameBuildRow build b) (workspaceId : Uuid) :
    linesOf db workspaceId b = linesOf db workspaceId build := by
  simp only [linesOf, stageIdsOf, listStages_row h]

theorem requiredOfStage_row (h : SameBuildRow build b) (workspaceId : Uuid) (project : Project)
    (stageId : Uuid) : requiredOfStage db workspaceId b project stageId =
      requiredOfStage db workspaceId build project stageId := by
  simp only [requiredOfStage, stageAllocation, stageAllocations, listStages_row h, entrySlices,
    h.quantity]

end Row

section Consume

variable {ctx : Ctx} {db db' : Db} {build : Build} {project : Project} {stage : BuildStage}
  {payload : ConsumeIn}

theorem Appends.sameBom {rows : List StockEntry} (h : Appends db db' rows) : SameBom db db' := by
  rw [h.eq]
  exact ⟨rfl, rfl, rfl⟩

theorem Appends.sameBuilds {rows : List StockEntry} (h : Appends db db' rows) :
    SameBuilds db db' := by
  rw [h.eq]
  exact ⟨rfl, rfl, rfl⟩

theorem produceOutput_same {storageId : Option Uuid} {lotName : Option String} {now : Timestamp}
    {output : Option (Lot × StockEntry)}
    (h : produceOutput ctx db build project storageId lotName now = .ok (output, db')) :
    SameBom db db' ∧ SameBuilds db db' := by
  obtain ⟨_, rfl, _⟩ | ⟨_, _, _, _, _, rfl, _⟩ := produceOutput_rows h
  · exact ⟨⟨rfl, rfl, rfl⟩, rfl, rfl, rfl⟩
  · exact ⟨⟨rfl, rfl, rfl⟩, rfl, rfl, rfl⟩

theorem finishBuild_same {now : Timestamp} {output : Option (Lot × StockEntry)}
    (h : finishBuild ctx db build project payload now = .ok (output, db')) :
    SameBom db db' ∧ ∃ lot, SameBuilds (completeBuild ctx db build lot now) db' := by
  simp only [finishBuild, Outcome.bind_ok, Outcome.pure_ok, Prod.mk.injEq] at h
  obtain ⟨⟨out, db₁⟩, houtput, ⟨n, db₂⟩, hrelease, _, rfl⟩ := h
  obtain ⟨hbom, hsame⟩ := produceOutput_same houtput
  obtain ⟨rows, happends, _⟩ := releaseReservations_rows hrelease
  refine ⟨?_, out.map Prod.fst, ?_⟩
  · have hcomplete : SameBom db (completeBuild ctx db₁ build (out.map Prod.fst) now) :=
      ⟨hbom.parts, hbom.projects, hbom.projectEntries⟩
    exact hcomplete.trans happends.sameBom
  · have hcomplete : SameBuilds (completeBuild ctx db build (out.map Prod.fst) now)
        (completeBuild ctx db₁ build (out.map Prod.fst) now) := by
      constructor
      case builds => simp only [completeBuild, Db.updateBuild, hsame.builds]
      case buildStages => exact hsame.buildStages
      case buildStageLines => exact hsame.buildStageLines
    exact hcomplete.trans happends.sameBuilds

/-- The stage is complete, and the build is closed or in progress. -/
structure StageMarked (ctx : Ctx) (db db' : Db) (build : Build) (stage : BuildStage) (closes : Prop)
    [Decidable closes] : Prop where
  bom : SameBom db db'
  lines : db'.buildStageLines = db.buildStageLines
  stages : db'.buildStages =
    (db.updateBuildStage stage.id (consumedStage ctx ctx.utcnow)).buildStages
  builds : ∃ f : Build → Build, db'.builds = (db.updateBuild build.id f).builds ∧
    ∀ b, SameBuildRow b (f b) ∧ (f b).status =
      if closes then .complete else if b.status = .planned then .inProgress else b.status

theorem updateBuild_updateBuild {id : Uuid} {f g : Build → Build} (hf : ∀ b, (f b).id = b.id) :
    (db.updateBuild id f).updateBuild id g = db.updateBuild id (g ∘ f) := by
  simp only [Db.updateBuild, List.map_map]
  congr 1
  refine List.map_congr_left ?_
  intro b _
  by_cases hid : b.id = id
  · simp [hid, hf]
  · simp [hid]

theorem completeBuild_marked (ctx : Ctx) (db : Db) (build : Build) (stage : BuildStage)
    (inner : Ctx) (lot : Option Lot) (now : Timestamp) :
    ∃ f : Build → Build,
      (completeBuild inner (markStageConsumed ctx db build stage now) build lot now).builds =
        (db.updateBuild build.id f).builds ∧
      ∀ b, SameBuildRow b (f b) ∧ (f b).status = .complete := by
  refine ⟨completedBuild inner lot now ∘ startedBuild ctx now, ?_,
    fun b => ⟨⟨rfl, rfl, rfl, rfl, rfl⟩, rfl⟩⟩
  have hid : ∀ b, (startedBuild ctx now b).id = b.id := fun b => rfl
  rw [completeBuild, markStageConsumed, updateBuild_updateBuild hid]
  rfl

theorem consumeStage_marked (h : StageConsumed ctx db db' build project stage payload) :
    StageMarked ctx db db' build stage ((listStages db ctx.workspaceId build).filter
      (fun s => s.id ≠ stage.id ∧ s.status ≠ .complete) = []) := by
  obtain ⟨n, db₁, rows, db₂, hrelease, hlines, hrest⟩ := h.states
  obtain ⟨released, hreleased, _⟩ := releaseReservationAmounts_rows hrelease
  have hdrawn := (consumeLines_rows (applyConsumeLines_ok hlines)).1
  have hbom := hreleased.sameBom.trans hdrawn.sameBom
  have hsame := hreleased.sameBuilds.trans hdrawn.sameBuilds
  have hstages : (markStageConsumed ctx db₂ build stage ctx.utcnow).buildStages =
      (markStageConsumed ctx db build stage ctx.utcnow).buildStages := by
    simp only [markStageConsumed, Db.updateBuild, Db.updateBuildStage, hsame.buildStages]
  have hbuilds : (markStageConsumed ctx db₂ build stage ctx.utcnow).builds =
      (markStageConsumed ctx db build stage ctx.utcnow).builds := by
    simp only [markStageConsumed, Db.updateBuild, Db.updateBuildStage, hsame.builds]
  split at hrest
  next hlast =>
    obtain ⟨output, hfinish⟩ := hrest
    obtain ⟨hbom', lot, hsame'⟩ := finishBuild_same hfinish
    constructor
    case bom => exact ⟨hbom'.parts.trans hbom.parts, hbom'.projects.trans hbom.projects,
      hbom'.projectEntries.trans hbom.projectEntries⟩
    case lines => exact hsame'.buildStageLines.trans hsame.buildStageLines
    case stages => exact hsame'.buildStages.trans hstages
    case builds =>
      have hmarked : (completeBuild (ctx.child 2) (markStageConsumed ctx db₂ build stage
          ctx.utcnow) build lot ctx.utcnow).builds = (completeBuild (ctx.child 2)
            (markStageConsumed ctx db build stage ctx.utcnow) build lot ctx.utcnow).builds := by
        simp only [completeBuild, Db.updateBuild, hbuilds]
      obtain ⟨f, hf, hrow⟩ := completeBuild_marked ctx db build stage (ctx.child 2) lot
        ctx.utcnow
      refine ⟨f, hsame'.builds.trans (hmarked.trans hf), ?_⟩
      intro b
      rw [if_pos hlast]
      exact hrow b
  next hmore =>
    subst hrest
    constructor
    case bom => exact ⟨hbom.parts, hbom.projects, hbom.projectEntries⟩
    case lines => exact hsame.buildStageLines
    case stages => exact hstages
    case builds =>
      refine ⟨startedBuild ctx ctx.utcnow, hbuilds, ?_⟩
      intro b
      rw [if_neg hmore]
      exact ⟨⟨rfl, rfl, rfl, rfl, rfl⟩, rfl⟩

theorem stageMarked_row {closes : Prop} [Decidable closes]
    (h : StageMarked ctx db db' build stage closes) (hb : db.build build.id = some build) :
    ∃ b, db'.build build.id = some b ∧ SameBuildRow build b ∧ b.status =
      if closes then .complete else if build.status = .planned then .inProgress
        else build.status := by
  obtain ⟨f, hbuilds, hf⟩ := h.builds
  have hid : ∀ r, r.id = build.id → (f r).id = build.id := fun r hr => (hf r).1.id.trans hr
  refine ⟨f build, ?_, (hf build).1, (hf build).2⟩
  have hfind : (db.updateBuild build.id f).build build.id = _ := build_update hid
  rw [hb, Option.map_some, if_pos rfl] at hfind
  rw [Db.build, hbuilds]
  exact hfind

end Consume

section Marked

variable {ctx : Ctx} {db db' : Db} {build b : Build} {project : Project} {stage : BuildStage}
  {closes : Prop} [Decidable closes] {workspaceId : Uuid}

def markRow (ctx : Ctx) (stage s : BuildStage) : BuildStage :=
  if s.id = stage.id then consumedStage ctx ctx.utcnow s else s

theorem markRow_complete {s : BuildStage} : (markRow ctx stage s).status = .complete ↔
    s.status = .complete ∨ s.id = stage.id := by
  unfold markRow
  split
  next h => simp [consumedStage, h]
  next h => simp [h]

@[simp] theorem markRow_id (s : BuildStage) : (markRow ctx stage s).id = s.id := by
  unfold markRow
  split <;> rfl

@[simp] theorem markRow_sequence (s : BuildStage) :
    (markRow ctx stage s).sequence = s.sequence := by
  unfold markRow
  split <;> rfl

@[simp] theorem markRow_createdAt (s : BuildStage) :
    (markRow ctx stage s).createdAt = s.createdAt := by
  unfold markRow
  split <;> rfl

@[simp] theorem markRow_buildId (s : BuildStage) : (markRow ctx stage s).buildId = s.buildId := by
  unfold markRow
  split <;> rfl

@[simp] theorem markRow_workspaceId (s : BuildStage) :
    (markRow ctx stage s).workspaceId = s.workspaceId := by
  unfold markRow
  split <;> rfl

@[simp] theorem markRow_archivedAt (s : BuildStage) :
    (markRow ctx stage s).archivedAt = s.archivedAt := by
  unfold markRow
  split <;> rfl

theorem StageMarked.rows (h : StageMarked ctx db db' build stage closes) :
    db'.buildStages = db.buildStages.map (markRow ctx stage) := h.stages

theorem listStages_marked (h : StageMarked ctx db db' build stage closes) :
    listStages db' workspaceId b =
      (listStages db workspaceId b).map (markRow ctx stage) := by
  let before := fun s t : BuildStage => s.sequence < t.sequence ∨
    s.sequence = t.sequence ∧ (s.createdAt < t.createdAt ∨
      s.createdAt = t.createdAt ∧ s.id ≤ t.id)
  have hfilter : (db'.buildStages.filter fun s => s.workspaceId = workspaceId ∧
      s.buildId = b.id ∧ s.archivedAt = none) =
        (db.buildStages.filter fun s => s.workspaceId = workspaceId ∧
          s.buildId = b.id ∧ s.archivedAt = none).map (markRow ctx stage) := by
    rw [h.rows, List.filter_map]
    congr 1
    refine List.filter_congr ?_
    intro s _
    simp
  have hsort := List.map_insertionSort before before (markRow ctx stage)
    (db.buildStages.filter fun s => s.workspaceId = workspaceId ∧ s.buildId = b.id ∧
      s.archivedAt = none) fun x _ y _ => by simp [before]
  rw [← hfilter] at hsort
  exact hsort.symm

theorem stageIdsOf_marked (h : StageMarked ctx db db' build stage closes) :
    stageIdsOf db' workspaceId b = stageIdsOf db workspaceId b := by
  rw [stageIdsOf, listStages_marked h, List.map_map]
  exact List.map_congr_left fun s _ => markRow_id s

theorem linesOf_marked (h : StageMarked ctx db db' build stage closes) :
    linesOf db' workspaceId b = linesOf db workspaceId b := by
  rw [linesOf, stageIdsOf_marked h, stageLines, h.lines]
  rfl

theorem wellStaged_marked (h : StageMarked ctx db db' build stage closes)
    (hw : WellStaged db) : WellStaged db' := by
  constructor
  case ids =>
    rw [h.rows, List.map_map]
    exact (congrArg List.Nodup (List.map_congr_left fun s _ => markRow_id s)).mpr hw.ids
  case sequences =>
    intro s hs t ht
    rw [h.rows, List.mem_map] at hs ht
    obtain ⟨s, hs, rfl⟩ := hs
    obtain ⟨t, ht, rfl⟩ := ht
    simp only [markRow_archivedAt, markRow_buildId, markRow_sequence]
    intro hsActive htActive hbuild hseq
    rw [hw.sequences s hs t ht hsActive htActive hbuild hseq]
  case lines =>
    rw [LinesDistinct, h.lines]
    exact hw.lines
  case stages =>
    intro l hl
    rw [h.lines] at hl
    obtain ⟨s, hs, hid⟩ := hw.stages l hl
    exact ⟨markRow ctx stage s, h.rows ▸ List.mem_map_of_mem hs, by rw [markRow_id, hid]⟩

theorem requiredOfStage_marked (h : StageMarked ctx db db' build stage closes)
    (hb : SameBuildRow build b) (stageId : Uuid) :
    requiredOfStage db' workspaceId b project stageId =
      requiredOfStage db workspaceId build project stageId := by
  have hids : (listStages db' workspaceId b).map (·.id) =
      (listStages db workspaceId build).map (·.id) := by
    have hsame : listStages db workspaceId b =
        listStages db workspaceId build := by
      simp only [listStages, hb.id]
    rw [← hsame]
    exact stageIdsOf_marked h
  have hpart : db'.part = db.part := by
    funext id
    rw [Db.part, Db.part, h.bom.parts]
  have hentries : projectEntriesById db' workspaceId project =
      projectEntriesById db workspaceId project := by
    rw [projectEntriesById, projectEntriesOf, h.bom.projectEntries]
    rfl
  have hlines : stageLines db' workspaceId = stageLines db workspaceId := by
    funext ids
    rw [stageLines, stageLines, h.lines]
  have hslices : ∀ ids lines entryId, entrySlices db' workspaceId b project ids lines entryId =
      entrySlices db workspaceId build project ids lines entryId := by
    intro ids lines entryId
    simp only [entrySlices, hentries, hpart, hb.quantity]
  simp only [requiredOfStage, stageAllocation, stageAllocations, hids, hlines,
    hslices]

end Marked

section Created

variable {ctx : Ctx} {db db' : Db} {build b : Build} {project : Project}
  {payload : BuildStageCreateIn} {stage s : BuildStage}

theorem mem_listStages_created (h : StageCreated ctx db db' build project payload stage) :
    s ∈ listStages db' ctx.workspaceId build ↔
      s ∈ listStages db ctx.workspaceId build ∨ s = stage := by
  obtain ⟨rows, rfl, _⟩ := h.rows
  have hstage : stage.workspaceId = ctx.workspaceId ∧ stage.buildId = build.id ∧
      stage.archivedAt = none := by
    rw [h.row]
    exact ⟨rfl, rfl, rfl⟩
  simp only [mem_listStages, List.mem_append, List.mem_singleton, or_and_right]
  refine or_congr Iff.rfl ?_
  constructor
  · exact And.left
  · rintro rfl
    exact ⟨rfl, hstage⟩

/-- Creating a stage keeps the references of the stage tables. -/
theorem wellStaged_created (h : StageCreated ctx db db' build project payload stage)
    (hw : WellStaged db) : WellStaged db' := by
  have hdistinct := h.distinct hw.lines
  obtain ⟨rows, rfl, hrows⟩ := h.rows
  constructor
  case ids =>
    rw [List.map_append, List.nodup_append]
    refine ⟨hw.ids, List.nodup_singleton _, ?_⟩
    intro a ha b hb
    obtain ⟨s, hs, rfl⟩ := List.mem_map.mp ha
    rw [List.map_singleton, List.mem_singleton] at hb
    exact hb ▸ h.fresh s hs
  case sequences =>
    intro s hs t ht hsActive htActive hbuild hseq
    rw [List.mem_append, List.mem_singleton] at hs ht
    rcases hs with hs | rfl
    · rcases ht with ht | rfl
      · exact hw.sequences s hs t ht hsActive htActive hbuild hseq
      · exact absurd hseq (h.unique s hs hsActive hbuild)
    · rcases ht with ht | rfl
      · exact absurd hseq.symm (h.unique t ht htActive hbuild.symm)
      · rfl
  case lines => exact hdistinct
  case stages =>
    intro l hl
    rcases List.mem_append.mp hl with hl | hl
    · obtain ⟨s, hs, hid⟩ := hw.stages l hl
      exact ⟨s, List.mem_append_left _ hs, hid⟩
    · obtain ⟨line, _, hrow⟩ := exists_of_forall₂ hrows hl
      exact ⟨stage, List.mem_append_right _ (List.mem_singleton_self _), hrow.stage.symm⟩

theorem linesOf_created (h : StageCreated ctx db db' build project payload stage)
    (hw : WellStaged db) : ∃ rows,
      linesOf db' ctx.workspaceId build =
        linesOf db ctx.workspaceId build ++ rows ∧
      List.Forall₂ (LineRowOf ctx.workspaceId stage.id) payload.lines rows := by
  have hids : ∀ id, id ∈ stageIdsOf db' ctx.workspaceId build ↔
      id ∈ stageIdsOf db ctx.workspaceId build ∨ id = stage.id := by
    intro id
    simp only [stageIdsOf, List.mem_map, mem_listStages_created h]
    grind
  obtain ⟨rows, hdb, hrows⟩ := h.rows
  refine ⟨rows, ?_, hrows⟩
  have hlines : db'.buildStageLines = db.buildStageLines ++ rows := by rw [hdb]
  rw [linesOf, stageLines, hlines, List.filter_append]
  congr 1
  · refine List.filter_congr ?_
    intro l hl
    obtain ⟨r, hr, hid⟩ := hw.stages l hl
    have hne : l.buildStageId ≠ stage.id := hid ▸ h.fresh r hr
    rw [decide_eq_decide, hids]
    simp [hne]
  · rw [List.filter_eq_self]
    intro l hl
    obtain ⟨line, _, hrow⟩ := exists_of_forall₂ hrows hl
    simp [hids, hrow.workspace, hrow.stage, hrow.active]

end Created

section Routes

variable {ctx : Ctx} {db db' : Db} {buildId : Uuid}

theorem createBuildStage_ok {payload : BuildStageCreateIn} {stage : BuildStage}
    (h : createBuildStage ctx db buildId payload = .ok (stage, db')) :
    ∃ b p, db.build buildId = some b ∧ b.workspaceId = ctx.workspaceId ∧
      db.project b.projectId = some p ∧ StageCreated ctx db db' b p payload stage := by
  simp only [createBuildStage, Outcome.bind_ok, Outcome.mapError_ok, getBuild_ok,
    getProject_ok] at h
  obtain ⟨b, ⟨hb, hws⟩, p, ⟨hp, _⟩, hcreate⟩ := h
  exact ⟨b, p, hb, hws, hp, createStage_ok hcreate⟩

theorem consumeBuildStage_ok {stageId : Uuid} {payload : ConsumeIn}
    {result : StageConsumeResult}
    (h : consumeBuildStage ctx db buildId stageId payload = .ok (result, db')) :
    ∃ b p stage, getBuild ctx db buildId = .ok b ∧ getProject ctx db b.projectId = .ok p ∧
      getStage ctx db b stageId = .ok stage ∧ stage.id = stageId ∧
      StageConsumed ctx db db' b p stage payload := by
  simp only [consumeBuildStage, Outcome.bind_ok, Outcome.mapError_ok] at h
  obtain ⟨b, hb, p, hp, stage, hs, hconsume⟩ := h
  have hbuild := (getBuild_ok.mp hb).1
  have hstage := (getStage_ok.mp hs).1
  refine ⟨b, p, stage, hb, hp, hs, buildStage_id hstage, ?_⟩
  exact consumeStage_ok ((build_id hbuild).symm ▸ hbuild) ((buildStage_id hstage).symm ▸ hstage)
    hconsume

end Routes

end StockManager
