import StockManager.Effects.Enabled
import StockManager.Effects.StagePlan
import StockManager.Properties.References
import StockManager.Properties.StagedBuild

/-! # Which staged builds can be finished

`consume_stage` refuses a stage whose slices are all empty, and every later
stage behind it. Nothing else stands in the way of a build with enough stock. -/

namespace StockManager

def Request.isConsumeOf (buildId : Uuid) (request : Request) : Prop :=
  ∃ stageId payload, request = .consumeBuildStage buildId stageId payload

/-- Some sequence of `consume_stage` calls succeeds throughout and leaves the build complete. -/
def CanFinish (db : Db) (buildId : Uuid) : Prop :=
  ∃ (calls : List Call) (db' : Db), (∀ call ∈ calls, call.request.isConsumeOf buildId) ∧
    Outcome.runAll exec db calls = .ok db' ∧ ∃ b ∈ db'.build buildId, b.status = .complete

abbrev StagePlan := List ((Uuid × Uuid) × Bucket)

/-- A unit of stock for every piece the pending stages still require, and no
bucket is asked for more than it holds. -/
structure Planned (db : Db) (workspaceId : Uuid) (build : Build) (project : Project)
    (plan : StagePlan) : Prop where
  bucket : ∀ item ∈ plan, item.2.workspaceId = workspaceId ∧ ∃ partId,
    item.2.partId = some partId ∧ entryPart db workspaceId project item.1.2 = some partId
  refs : ∀ item ∈ plan, RefsIn db workspaceId item.2.storageLocationId item.2.lotId
  enough : ∀ item ∈ plan, ((plan.countP fun i => i.2 = item.2 : ℕ) : Decimal) ≤
    balance db.stockEntries item.2
  asked : ∀ item ∈ plan, item.1.2 ∈ Dict.keys
    (requiredOfStage db workspaceId build project item.1.1)
  covers : ∀ s ∈ pendingStages db workspaceId build,
    ∀ item ∈ requiredOfStage db workspaceId build project s.id,
      ((plan.countP fun i => i.1 = (s.id, item.1) : ℕ) : ℤ) = item.2

section Plan

variable {db db' : Db} {workspaceId : Uuid} {build : Build} {project : Project} {plan : StagePlan}

theorem exists_planned (h : WellReferenced db)
    (hstock : StockSuffices db workspaceId build project) :
    ∃ plan, Planned db workspaceId build project plan := by
  obtain ⟨plan, hplan⟩ := exists_stagePlan hstock
  have hunits : ∀ unit, (plan.countP fun i => i.1 = unit) =
      (pendingUnits db workspaceId build project).countP (fun u => u = unit) := by
    intro unit
    rw [← hplan.demands, List.countP_map]
    rfl
  have hheld : ∀ item ∈ plan, 0 < (plan.countP fun i => i.2 = item.2) ∧
      ((plan.countP fun i => i.2 = item.2 : ℕ) : Decimal) ≤ balance db.stockEntries item.2 := by
    intro item hitem
    have hpos : 0 < plan.countP fun i => i.2 = item.2 :=
      List.countP_pos_iff.mpr ⟨item, hitem, by simp⟩
    refine ⟨hpos, ?_⟩
    have hcap := hplan.capacity item.2
    rw [bucketUnits] at hcap
    have hfloor : ((plan.countP fun i => i.2 = item.2 : ℕ) : ℤ) ≤
        ⌊balance db.stockEntries item.2⌋ := by omega
    exact_mod_cast Int.le_floor.mp hfloor
  refine ⟨plan, ?_⟩
  constructor
  case bucket =>
    intro item hitem
    obtain ⟨hws, hpart, hsome⟩ := mem_partBuckets (hplan.bins item hitem)
    obtain ⟨partId, hpartId⟩ := Option.isSome_iff_exists.mp hsome
    exact ⟨hws, partId, hpart.trans hpartId, hpartId⟩
  case refs =>
    intro item hitem
    obtain ⟨hpos, hle⟩ := hheld item hitem
    have hne : balance db.stockEntries item.2 ≠ 0 :=
      ne_of_gt (lt_of_lt_of_le (Nat.cast_pos.mpr hpos) hle)
    have hrefs := refsIn_of_balance h.located h.lots hne
    rwa [(mem_partBuckets (hplan.bins item hitem)).1] at hrefs
  case enough => exact fun item hitem => (hheld item hitem).2
  case asked =>
    intro item hitem
    have hunit : item.1 ∈ pendingUnits db workspaceId build project :=
      hplan.demands ▸ List.mem_map_of_mem hitem
    obtain ⟨s, _, hid, hkey⟩ := mem_pendingUnits hunit
    rw [hid]
    exact hkey
  case covers =>
    intro s hs item hitem
    rw [hunits]
    exact pendingUnits_entry h.staged hs hitem

def unitLine (item : (Uuid × Uuid) × Bucket) : ConsumeLineIn where
  projectEntryId := item.1.2
  partId := item.2.partId.getD 0
  quantity := 1
  lotId := item.2.lotId
  storageLocationId := item.2.storageLocationId
  quantityPos := Int.one_pos

def planOf (plan : StagePlan) (stageId : Uuid) : StagePlan := plan.filter fun i => i.1.1 = stageId

theorem unitLine_bucket (h : Planned db workspaceId build project plan)
    {item : (Uuid × Uuid) × Bucket} (hitem : item ∈ plan) :
    (unitLine item).bucket workspaceId = item.2 := by
  obtain ⟨hws, partId, hpart, _⟩ := h.bucket item hitem
  obtain ⟨unit, b⟩ := item
  obtain ⟨ws, part, lot, storage⟩ := b
  simp only at hws hpart
  subst hws hpart
  rfl

theorem demandOn_unitLines (h : Planned db workspaceId build project plan) (stageId : Uuid)
    (b : Bucket) : demandOn workspaceId ((planOf plan stageId).map unitLine) b =
      ((planOf plan stageId).countP fun i => i.2 = b : ℕ) := by
  rw [demandOn, Tally.tally_map, ← Tally.tally_one]
  apply Tally.tally_congr
  · intro item hitem
    rw [unitLine_bucket h (List.mem_filter.mp hitem).1]
  · exact fun _ _ _ => rfl

theorem suppliedFor_unitLines (plan : StagePlan) (stageId entryId : Uuid) :
    suppliedFor ((planOf plan stageId).map unitLine) entryId =
      (plan.countP fun i => i.1 = (stageId, entryId) : ℕ) := by
  have hcount : (plan.countP fun i => i.1 = (stageId, entryId)) =
      (planOf plan stageId).countP fun i => i.1.2 = entryId := by
    rw [planOf, List.countP_filter]
    apply List.countP_congr
    intro item _
    simp only [decide_eq_true_eq, Bool.and_eq_true, Prod.ext_iff]
    tauto
  rw [suppliedFor, Tally.tally_map, hcount, ← Tally.tally_one]
  rfl

end Plan

/-- An open build whose pending stages all require something, with a plan for them. -/
structure Ready (db : Db) (build : Build) (project : Project) (plan : StagePlan) : Prop where
  planned : Planned db build.workspaceId build project plan
  staged : WellStaged db
  row : db.build build.id = some build
  active : build.archivedAt = none
  statusOpen : build.status.isOpen
  projectRow : db.project build.projectId = some project
  projectWorkspace : project.workspaceId = build.workspaceId
  output : OutputInWorkspace db build.workspaceId project
  something : ∀ s ∈ pendingStages db build.workspaceId build,
    requiredOfStage db build.workspaceId build project s.id ≠ []

section Step

variable {ctx : Ctx} {db db' : Db} {workspaceId : Uuid} {build : Build} {project : Project}
  {plan : StagePlan} {stage : BuildStage} {rest : List BuildStage}

theorem earlier_complete (hw : WellStaged db)
    (h : pendingStages db workspaceId build = stage :: rest) :
    ∀ s ∈ (listStages db workspaceId build).takeWhile (fun s => s.id ≠ stage.id),
      s.status = .complete := by
  obtain ⟨before, later, hsplit, hcomplete, _, _⟩ := List.filter_eq_cons_iff.mp h
  have hstage : stage ∈ listStages db workspaceId build := by simp [hsplit]
  have hsorted : (listStages db workspaceId build).Pairwise fun a b => a.sequence < b.sequence :=
    listStages_pairwise hw
  rw [hsplit, List.pairwise_append, List.pairwise_cons] at hsorted
  intro s hs
  obtain ⟨hmem, hlt⟩ := (mem_earlier hw hstage).mp hs
  rw [hsplit, List.mem_append, List.mem_cons] at hmem
  rcases hmem with hmem | rfl | hmem
  · simpa using hcomplete s hmem
  · exact absurd hlt (lt_irrefl _)
  · exact absurd hlt (lt_asymm (hsorted.2.1.1 s hmem))

theorem pendingStages_marked {closes : Prop} [Decidable closes] {b : Build}
    (hmarked : StageMarked ctx db db' build stage closes) (hrow : SameBuildRow build b)
    (hw : WellStaged db) (h : pendingStages db workspaceId build = stage :: rest) :
    pendingStages db' workspaceId b = rest := by
  obtain ⟨before, later, hsplit, hcomplete, _, hrest⟩ := List.filter_eq_cons_iff.mp h
  have hids : (stageIdsOf db workspaceId build).Nodup := listStages_ids hw
  rw [stageIdsOf, hsplit, List.map_append, List.map_cons, List.nodup_append,
    List.nodup_cons] at hids
  have hsame : listStages db workspaceId b = listStages db workspaceId build := by
    simp only [listStages, hrow.id]
  have hbefore : (before.map (markRow ctx stage)).filter (fun s => s.status ≠ .complete) = [] := by
    rw [List.filter_eq_nil_iff]
    intro s hs
    obtain ⟨r, hr, rfl⟩ := List.mem_map.mp hs
    have hr' : r.status = .complete := by simpa using hcomplete r hr
    simp [markRow_complete, hr']
  have hlater : later.map (markRow ctx stage) = later := by
    refine (List.map_congr_left ?_).trans (List.map_id _)
    intro s hs
    have hne : s.id ≠ stage.id := fun heq => hids.2.1.1 (heq ▸ List.mem_map_of_mem hs)
    rw [markRow, if_neg hne]
    rfl
  have hdone : (markRow ctx stage stage).status = .complete := markRow_complete.mpr (Or.inr rfl)
  rw [pendingStages, listStages_marked hmarked, hsame, hsplit, List.map_append, List.map_cons,
    List.filter_append, hbefore, List.nil_append, List.filter_cons_of_neg (by simp [hdone]),
    hlater]
  exact hrest

theorem consumeStage_leaves {payload : ConsumeIn}
    (h : StageConsumed ctx db db' build project stage payload)
    (hmore : (listStages db ctx.workspaceId build).filter
      (fun s => s.id ≠ stage.id ∧ s.status ≠ .complete) ≠ []) :
    db'.lots = db.lots ∧ db'.storageLocations = db.storageLocations ∧
      ∀ b, balance db'.stockEntries b =
        balance db.stockEntries b - demandOn ctx.workspaceId payload.lines b := by
  obtain ⟨n, db₁, rows, db₂, hrelease, hlines, hrest⟩ := h.states
  rw [if_neg hmore] at hrest
  subst hrest
  obtain ⟨released, hreleased, hplan⟩ := releaseReservationAmounts_rows hrelease
  obtain ⟨hdrawn, hrows⟩ := consumeLines_rows (applyConsumeLines_ok hlines)
  refine ⟨hdrawn.sameLots.1.trans hreleased.sameLots.1,
    hdrawn.sameLots.2.trans hreleased.sameLots.2, ?_⟩
  intro b
  have hfirst : balance db₁.stockEntries = balance db.stockEntries := by
    rw [hreleased.eq]
    exact balance_append_reserved fun e he => (releases_reserved hplan e he).1
  have hsecond : balance db₂.stockEntries b =
      balance db₁.stockEntries b - demandOn ctx.workspaceId payload.lines b := by
    rw [hdrawn.eq]
    simp only [balance_append]
    rw [consumeRows_balance hrows, ← sub_eq_add_neg]
    rfl
  rw [← hfirst, ← hsecond]
  rfl

theorem Planned.next {closes : Prop} [Decidable closes] {b : Build}
    (h : Planned db workspaceId build project plan) (hw : WellStaged db)
    (hpending : pendingStages db workspaceId build = stage :: rest)
    (hmarked : StageMarked ctx db db' build stage closes) (hrow : SameBuildRow build b)
    (hlots : db'.lots = db.lots) (hstorage : db'.storageLocations = db.storageLocations)
    (hbalance : ∀ k, balance db'.stockEntries k =
      balance db.stockEntries k - demandOn workspaceId ((planOf plan stage.id).map unitLine) k) :
    Planned db' workspaceId b project (plan.filter fun i => i.1.1 ≠ stage.id) := by
  have hpart : ∀ entryId, entryPart db' workspaceId project entryId =
      entryPart db workspaceId project entryId := by
    intro entryId
    simp only [entryPart, projectEntriesById, projectEntriesOf, hmarked.bom.projectEntries]
  have hreq : ∀ stageId, requiredOfStage db' workspaceId b project stageId =
      requiredOfStage db workspaceId build project stageId :=
    requiredOfStage_marked hmarked hrow
  have hkept : ∀ item ∈ plan.filter (fun i => i.1.1 ≠ stage.id), item ∈ plan :=
    fun item hitem => (List.mem_filter.mp hitem).1
  constructor
  case bucket =>
    intro item hitem
    rw [hpart]
    exact h.bucket item (hkept item hitem)
  case refs =>
    intro item hitem
    have hrefs := h.refs item (hkept item hitem)
    refine ⟨?_, ?_⟩
    · simpa only [Db.storageLocation, hstorage] using hrefs.storage
    · simpa only [Db.lot, hlots] using hrefs.lot
  case enough =>
    intro item hitem
    have hsum : plan.countP (fun i => i.2 = item.2) =
        (planOf plan stage.id).countP (fun i => i.2 = item.2) +
          (plan.filter fun i => i.1.1 ≠ stage.id).countP (fun i => i.2 = item.2) := by
      have hsplit := List.countP_eq_countP_filter_add plan (fun i => decide (i.2 = item.2))
        fun i => decide (i.1.1 = stage.id)
      simpa only [planOf, ne_eq, decide_not] using hsplit
    have hheld := h.enough item (hkept item hitem)
    rw [hsum, Nat.cast_add] at hheld
    rw [hbalance, demandOn_unitLines h, Int.cast_natCast]
    linarith
  case asked =>
    intro item hitem
    rw [hreq]
    exact h.asked item (hkept item hitem)
  case covers =>
    intro s hs item hitem
    rw [pendingStages_marked hmarked hrow hw hpending] at hs
    rw [hreq] at hitem
    have hsPending : s ∈ pendingStages db workspaceId build :=
      hpending ▸ List.mem_cons_of_mem _ hs
    rw [← h.covers s hsPending item hitem, List.countP_filter]
    congr 1
    apply List.countP_congr
    intro i _
    have hne : s.id ≠ stage.id := by
      have hids : ((pendingStages db workspaceId build).map (·.id)).Nodup :=
        (List.filter_sublist.map _).nodup (listStages_ids hw)
      rw [hpending, List.map_cons, List.nodup_cons] at hids
      exact fun heq => hids.1 (heq ▸ List.mem_map_of_mem hs)
    simp only [decide_eq_true_eq, Bool.and_eq_true, and_iff_left_iff_imp]
    intro hi
    rw [hi]
    exact hne

theorem projectEntriesById_id {entryId : Uuid} {e : ProjectEntry}
    (h : Dict.find entryId (projectEntriesById db workspaceId project) = some e) :
    e.id = entryId := by
  have hitems : projectEntriesById db workspaceId project =
      ((projectEntriesOf db workspaceId project).map fun e => (e.id, e)).foldl
        (fun d item => Dict.put item.1 item.2 d) [] := by
    rw [List.foldl_map]
    rfl
  rw [hitems, Dict.find_foldl_put] at h
  have hmem := Dict.mem_of_find ((Option.or_none).symm.trans h)
  obtain ⟨r, _, hr⟩ := List.mem_map.mp (List.mem_reverse.mp hmem)
  obtain ⟨hid, rfl⟩ := Prod.mk.inj hr
  exact hid

theorem unitLines_accepted (h : Planned db workspaceId build project plan) (stageId : Uuid) :
    ∀ l ∈ (planOf plan stageId).map unitLine, LineAccepted db workspaceId
      (projectEntriesById db workspaceId project)
      (requiredOfStage db workspaceId build project stageId) l := by
  intro l hl
  obtain ⟨item, hitem, rfl⟩ := List.mem_map.mp hl
  obtain ⟨hplan, hstage⟩ := List.mem_filter.mp hitem
  have hstage' : item.1.1 = stageId := by simpa using hstage
  have hkey := hstage' ▸ h.asked item hplan
  obtain ⟨req, hreq, hfst⟩ := List.mem_map.mp hkey
  obtain ⟨entry, part, hbom⟩ := (requiredOfStage_item hreq).2
  obtain ⟨_, partId, hpart, hentryPart⟩ := h.bucket item hplan
  have hfound := hbom.found
  have hentry := hbom.entryPart
  rw [hfst] at hfound hentry
  refine ⟨⟨entry, hfound, hbom.consumable, ?_, ?_⟩, h.refs item hplan⟩
  · rw [projectEntriesById_id hfound]
    exact hkey
  · rw [← hentry, hentryPart, unitLine, hpart, Option.getD_some]

theorem unitLines_held (h : Planned db workspaceId build project plan) (stageId : Uuid) :
    ∀ l ∈ (planOf plan stageId).map unitLine,
      (demandOn workspaceId ((planOf plan stageId).map unitLine) (l.bucket workspaceId) : Decimal) ≤
        balance db.stockEntries (l.bucket workspaceId) := by
  intro l hl
  obtain ⟨item, hitem, rfl⟩ := List.mem_map.mp hl
  have hplan := (List.mem_filter.mp hitem).1
  rw [unitLine_bucket h hplan, demandOn_unitLines h, Int.cast_natCast]
  have hle : (planOf plan stageId).countP (fun i => i.2 = item.2) ≤
      plan.countP fun i => i.2 = item.2 := List.filter_sublist.countP_le
  exact le_trans (Nat.cast_le.mpr hle) (h.enough item hplan)

theorem unitLines_nonempty (h : Planned db workspaceId build project plan)
    (hstage : stage ∈ pendingStages db workspaceId build)
    (hsome : requiredOfStage db workspaceId build project stage.id ≠ []) :
    (planOf plan stage.id).map unitLine ≠ [] := by
  obtain ⟨item, hitem⟩ := List.exists_mem_of_ne_nil _ hsome
  have hcount := h.covers stage hstage item hitem
  have hpos := (requiredOfStage_item hitem).1
  have hnat : 0 < plan.countP fun i => i.1 = (stage.id, item.1) := by omega
  obtain ⟨i, hi, hunit⟩ := List.countP_pos_iff.mp hnat
  have hunit' : i.1 = (stage.id, item.1) := by simpa using hunit
  have hmem : i ∈ planOf plan stage.id := List.mem_filter.mpr ⟨hi, by simp [hunit']⟩
  exact List.ne_nil_of_mem (List.mem_map_of_mem hmem)

theorem Ready.step (h : Ready db build project plan)
    (hpending : pendingStages db build.workspaceId build = stage :: rest) :
    ∃ call db', call.request.isConsumeOf build.id ∧ exec call db = .ok db' ∧
      ((∃ b ∈ db'.build build.id, b.status = .complete) ∨
        ∃ b plan', b.id = build.id ∧ Ready db' b project plan' ∧
          pendingStages db' b.workspaceId b = rest ∧ rest ≠ []) := by
  have hmem : stage ∈ pendingStages db build.workspaceId build :=
    hpending ▸ List.mem_cons_self ..
  obtain ⟨hlisted, hstatus⟩ := List.mem_filter.mp hmem
  have hnot : stage.status ≠ .complete := by simpa using hstatus
  obtain ⟨hrow, hws, hof, harch⟩ := mem_listStages.mp hlisted
  have hstage := buildStage_of_mem h.staged hrow
  obtain ⟨ctx, hctx, hfresh⟩ := exists_freshDraws db build.workspaceId
  let payload : ConsumeIn :=
    { lines := (planOf plan stage.id).map unitLine
      outputStorageLocationId := none
      outputLotName := none
      linesNonempty := unitLines_nonempty h.planned hmem (h.something stage hmem) }
  have hcovered : ∀ item ∈ requiredOfStage db build.workspaceId build project stage.id,
      item.2 ≤ suppliedFor payload.lines item.1 := by
    intro item hitem
    rw [suppliedFor_unitLines, h.planned.covers stage hmem item hitem]
  obtain ⟨result, db', hresult⟩ : ∃ result db',
      consumeStage ctx db build project stage payload = .ok (result, db') := by
    apply consumeStage_enabled hfresh h.row hstage h.active h.statusOpen hnot
    case hstorage => rfl
    all_goals rw [hctx]
    · exact earlier_complete h.staged hpending
    · exact h.something stage hmem
    · exact unitLines_accepted h.planned stage.id
    · exact unitLines_held h.planned stage.id
    · exact hcovered
    · exact h.output
  have hexec : exec ⟨ctx, .consumeBuildStage build.id stage.id payload⟩ db = .ok db' := by
    simp only [exec, consumeBuildStage, Outcome.map_ok, Outcome.bind_ok, Outcome.mapError_ok]
    exact ⟨(result, db'), ⟨build, getBuild_ok.mpr ⟨h.row, hctx.symm⟩, project,
      getProject_ok.mpr ⟨h.projectRow, h.projectWorkspace.trans hctx.symm⟩, stage,
      getStage_ok.mpr ⟨hstage, hws.trans hctx.symm, hof, harch⟩, hresult⟩, rfl⟩
  refine ⟨⟨ctx, .consumeBuildStage build.id stage.id payload⟩, db', ⟨stage.id, payload, rfl⟩,
    hexec, ?_⟩
  have hconsumed := consumeStage_ok h.row hstage hresult
  have hmarked := consumeStage_marked hconsumed
  obtain ⟨b, hrow', hsame, hstatus'⟩ := stageMarked_row hmarked h.row
  rw [hctx] at hstatus'
  split at hstatus'
  next => exact Or.inl ⟨b, hrow', hstatus'⟩
  next hmore =>
    right
    obtain ⟨hlots, hstorage, hbalance⟩ := consumeStage_leaves hconsumed (by rwa [hctx])
    rw [hctx] at hbalance
    have hrest : pendingStages db' b.workspaceId b = rest := by
      rw [hsame.workspaceId]
      exact pendingStages_marked hmarked hsame h.staged hpending
    refine ⟨b, plan.filter fun i => i.1.1 ≠ stage.id, hsame.id, ?_, hrest, ?_⟩
    · constructor
      case planned =>
        rw [hsame.workspaceId]
        exact h.planned.next h.staged hpending hmarked hsame hlots hstorage hbalance
      case staged => exact wellStaged_marked hmarked h.staged
      case row => exact hsame.id ▸ hrow'
      case active => exact hsame.archivedAt.trans h.active
      case statusOpen =>
        rw [BuildStatus.isOpen, hstatus']
        split
        next => exact Or.inr rfl
        next => exact h.statusOpen
      case projectRow =>
        rw [Db.project, hmarked.bom.projects, hsame.projectId]
        exact h.projectRow
      case projectWorkspace => exact h.projectWorkspace.trans hsame.workspaceId.symm
      case output =>
        rw [hsame.workspaceId]
        exact h.output.same hmarked.bom
      case something =>
        rw [hrest]
        intro s hs
        rw [hsame.workspaceId, requiredOfStage_marked hmarked hsame]
        exact h.something s (hpending ▸ List.mem_cons_of_mem _ hs)
    · rintro rfl
      apply hmore
      rw [List.filter_eq_nil_iff]
      intro s hs hbad
      obtain ⟨hne, hnotDone⟩ := of_decide_eq_true hbad
      have hs' : s ∈ pendingStages db build.workspaceId build :=
        List.mem_filter.mpr ⟨hs, decide_eq_true hnotDone⟩
      rw [hpending, List.mem_singleton] at hs'
      exact hne (congrArg BuildStage.id hs')

theorem Ready.canFinish (h : Ready db build project plan)
    (hsome : pendingStages db build.workspaceId build ≠ []) : CanFinish db build.id := by
  induction hlist : pendingStages db build.workspaceId build generalizing db build plan with
  | nil => exact absurd hlist hsome
  | cons stage rest ih =>
    obtain ⟨call, db', hcall, hexec, hnext⟩ := h.step hlist
    rcases hnext with hdone | ⟨b, plan', hid, hready, hpending, hrest⟩
    · refine ⟨[call], db', ?_, Outcome.runAll_cons.mpr ⟨db', hexec, rfl⟩, hdone⟩
      intro c hc
      exact List.mem_singleton.mp hc ▸ hcall
    · obtain ⟨calls, db'', hcalls, hrun, hdone⟩ := ih hready (hpending ▸ hrest) hpending
      rw [hid] at hcalls hdone
      refine ⟨call :: calls, db'', ?_, Outcome.runAll_cons.mpr ⟨db', hexec, hrun⟩, hdone⟩
      intro c hc
      rcases List.mem_cons.mp hc with rfl | hc
      · exact hcall
      · exact hcalls c hc

end Step

/-- An unfinished build with nothing left to consume, or with an empty stage. -/
structure Stuck (db : Db) (build : Build) (project : Project) : Prop where
  row : ∃ b, db.build build.id = some b ∧ SameBuildRow build b ∧ b.status ≠ .complete
  projectRow : db.project build.projectId = some project
  blocked : pendingStages db build.workspaceId build = [] ∨
    ∃ s ∈ pendingStages db build.workspaceId build,
      requiredOfStage db build.workspaceId build project s.id = []

section Stuck

variable {db db' : Db} {build : Build} {project : Project}

theorem Stuck.step (h : Stuck db build project) {call : Call}
    (hcall : call.request.isConsumeOf build.id) (hexec : exec call db = .ok db') :
    Stuck db' build project := by
  obtain ⟨ctx, request⟩ := call
  obtain ⟨stageId, payload, rfl⟩ := hcall
  obtain ⟨⟨result, _⟩, hconsume, rfl⟩ := Outcome.map_ok.mp hexec
  obtain ⟨b, p, stage, hb, hp, hs, rfl, hconsumed⟩ := consumeBuildStage_ok hconsume
  obtain ⟨b', hb', hrow, _⟩ := h.row
  obtain ⟨hfound, hws⟩ := getBuild_ok.mp hb
  obtain rfl : b = b' := Option.some.inj (hfound.symm.trans hb')
  rw [hrow.workspaceId] at hws
  obtain rfl : p = project := by
    have hproject := (getProject_ok.mp hp).1
    rw [hrow.projectId, h.projectRow] at hproject
    exact (Option.some.inj hproject).symm
  obtain ⟨hstage, hstageWs, hstageBuild, hactive⟩ := getStage_ok.mp hs
  have hlisted : stage ∈ listStages db ctx.workspaceId b :=
    mem_listStages.mpr ⟨List.mem_of_find?_eq_some hstage, hstageWs, hstageBuild, hactive⟩
  have hmarked := consumeStage_marked hconsumed
  have hblocked := h.blocked
  rw [hws] at hblocked
  have hlistedOf : stage ∈ pendingStages db ctx.workspaceId build :=
    List.mem_filter.mpr ⟨listStages_row hrow ctx.workspaceId ▸ hlisted,
      decide_eq_true hconsumed.pending⟩
  rcases hblocked with hnone | ⟨s, hs, hempty⟩
  · rw [hnone] at hlistedOf
    cases hlistedOf
  · have hne : s.id ≠ stage.id := by
      intro heq
      apply hconsumed.something
      rw [← heq, requiredOfStage_row hrow]
      exact hempty
    obtain ⟨hmem, hpending⟩ := List.mem_filter.mp hs
    have hsPending : s.status ≠ .complete := by simpa using hpending
    constructor
    case row =>
      obtain ⟨c, hc, hsame, hstatus⟩ := stageMarked_row hmarked (hrow.id ▸ hfound)
      refine ⟨c, hrow.id ▸ hc, hrow.trans hsame, ?_⟩
      have hmore : (listStages db ctx.workspaceId b).filter
          (fun s => s.id ≠ stage.id ∧ s.status ≠ .complete) ≠ [] :=
        List.ne_nil_of_mem (List.mem_filter.mpr
          ⟨(listStages_row hrow ctx.workspaceId).symm ▸ hmem, decide_eq_true ⟨hne, hsPending⟩⟩)
      rw [hstatus, if_neg hmore]
      split
      next => simp
      next =>
        rcases hconsumed.statusOpen with hopen | hopen <;> simp [hopen]
    case projectRow =>
      rw [Db.project, hmarked.bom.projects]
      exact h.projectRow
    case blocked =>
      right
      rw [hws]
      refine ⟨s, ?_, ?_⟩
      · refine List.mem_filter.mpr ⟨?_, hpending⟩
        rw [listStages_marked hmarked]
        refine List.mem_map.mpr ⟨s, hmem, ?_⟩
        rw [markRow, if_neg hne]
      · rw [requiredOfStage_marked hmarked hrow.symm, requiredOfStage_row hrow]
        exact hempty

theorem Stuck.cannotFinish (h : Stuck db build project) : ¬ CanFinish db build.id := by
  rintro ⟨calls, db', hcalls, hrun, b, hb, hcomplete⟩
  induction calls generalizing db with
  | nil =>
    obtain rfl := Outcome.foldlM_nil_ok.mp hrun
    obtain ⟨b', hb', _, hopen⟩ := h.row
    obtain rfl : b = b' := Option.some.inj (hb.symm.trans hb')
    exact hopen hcomplete
  | cons call calls ih =>
    obtain ⟨db₁, hexec, hrest⟩ := Outcome.runAll_cons.mp hrun
    exact ih (h.step (hcalls call (List.mem_cons_self ..)) hexec)
      (fun c hc => hcalls c (List.mem_cons_of_mem _ hc)) hrest

/-- With enough stock, exactly the open builds with a pending stage and no empty
one can be finished. -/
theorem stagedBuild_canFinish_iff {db₀ : Db} (h₀ : WellReferenced db₀) (calls : List Call)
    (hb : (runCalls db₀ calls).build build.id = some build) (hactive : build.archivedAt = none)
    (hopen : build.status.isOpen)
    (hproject : (runCalls db₀ calls).project build.projectId = some project)
    (hws : project.workspaceId = build.workspaceId)
    (hout : OutputInWorkspace (runCalls db₀ calls) build.workspaceId project)
    (hstock : StockSuffices (runCalls db₀ calls) build.workspaceId build project) :
    CanFinish (runCalls db₀ calls) build.id ↔
      pendingStages (runCalls db₀ calls) build.workspaceId build ≠ [] ∧
        ∀ s ∈ pendingStages (runCalls db₀ calls) build.workspaceId build,
          requiredOfStage (runCalls db₀ calls) build.workspaceId build project s.id ≠ [] := by
  have hrefs := runCalls_wellReferenced h₀ calls
  constructor
  · intro hfinish
    have hnot : ¬ Stuck (runCalls db₀ calls) build project := fun hs => hs.cannotFinish hfinish
    have hrow : ∃ b, (runCalls db₀ calls).build build.id = some b ∧ SameBuildRow build b ∧
        b.status ≠ .complete := by
      refine ⟨build, hb, .refl build, ?_⟩
      rcases hopen with hopen | hopen <;> simp [hopen]
    refine ⟨fun hnone => hnot ⟨hrow, hproject, Or.inl hnone⟩, ?_⟩
    exact fun s hs hempty => hnot ⟨hrow, hproject, Or.inr ⟨s, hs, hempty⟩⟩
  · rintro ⟨hsome, hevery⟩
    obtain ⟨plan, hplanned⟩ := exists_planned hrefs hstock
    have hready : Ready (runCalls db₀ calls) build project plan :=
      ⟨hplanned, hrefs.staged, hb, hactive, hopen, hproject, hws, hout, hevery⟩
    exact hready.canFinish hsome

end Stuck

/-- The bolts of the sample build in two halves. -/
def sampleHalves : List Call :=
  [⟨sampleCtx 4000, sampleStage 3000 none 40 50 (by decide)⟩,
    ⟨sampleCtx 5000, sampleStage 3000 none 40 50 (by decide)⟩]

theorem stagedBuild_canFinish_iff_sample :
    CanFinish (runCalls sampleStagedDb sampleHalves) sampleStagedBuild.id ↔
      pendingStages (runCalls sampleStagedDb sampleHalves) sampleStagedBuild.workspaceId
          sampleStagedBuild ≠ [] ∧
        ∀ s ∈ pendingStages (runCalls sampleStagedDb sampleHalves) sampleStagedBuild.workspaceId
            sampleStagedBuild,
          requiredOfStage (runCalls sampleStagedDb sampleHalves) sampleStagedBuild.workspaceId
            sampleStagedBuild ⟨30, 1, none⟩ s.id ≠ [] := by
  have hstart : WellReferenced sampleStagedDb :=
    runCalls_wellReferenced (.empty rfl rfl rfl) _
  have hb : (runCalls sampleStagedDb sampleHalves).build sampleStagedBuild.id =
      some sampleStagedBuild := by decide +kernel
  apply stagedBuild_canFinish_iff hstart sampleHalves hb
  · decide
  · decide
  · decide +kernel
  · rfl
  · exact fun partId hmem => by cases hmem
  · exact stockSuffices_of_parts [10] (by decide +kernel) (by decide +kernel)

/-- One bolt in two halves: the first half takes it, and the second stage is
refused for ever. -/
theorem emptyStage_blocks_build :
    ¬ ∀ (calls : List Call) (build : Build) (project : Project),
      (runCalls (sampleProjectDb 1) calls).build build.id = some build →
      build.archivedAt = none → build.status.isOpen →
      listStages (runCalls (sampleProjectDb 1) calls) build.workspaceId build ≠ [] →
      (runCalls (sampleProjectDb 1) calls).project build.projectId = some project →
      StockSuffices (runCalls (sampleProjectDb 1) calls) build.workspaceId build project →
      CanFinish (runCalls (sampleProjectDb 1) calls) build.id := by
  intro h
  let calls : List Call :=
    [⟨sampleCtx 1000, .ledger (sampleAdd 10 20 200 false (by decide))⟩,
      ⟨sampleCtx 3000, sampleBuild 1 (by decide)⟩] ++ sampleHalves
  have hrow : (runCalls (sampleProjectDb 1) calls).build sampleStagedBuild.id =
      some sampleStagedBuild := by decide +kernel
  have hproject : (runCalls (sampleProjectDb 1) calls).project sampleStagedBuild.projectId =
      some ⟨30, 1, none⟩ := by decide +kernel
  have hstuck : Stuck (runCalls (sampleProjectDb 1) calls) sampleStagedBuild ⟨30, 1, none⟩ := by
    refine ⟨⟨_, hrow, .refl _, by decide⟩, hproject, Or.inr ?_⟩
    decide +kernel
  refine hstuck.cannotFinish (h calls sampleStagedBuild ⟨30, 1, none⟩ hrow (by decide)
    (by decide +kernel) (by decide +kernel) hproject ?_)
  exact stockSuffices_of_parts [10] (by decide +kernel) (by decide +kernel)

end StockManager
