import StockManager.Effects.StageOrder

/-! # A staged build draws what a single pass draws

The slices of a BOM line are differences of `share`, so stages consumed in
sequence order add up to the whole. A stage put before one already consumed
shifts slices that have been drawn. -/

namespace StockManager

/-- `create_stage` and `consume_stage` on one build. -/
def Request.isStageOf (buildId : Uuid) : Request → Prop
  | .createBuildStage id _ => id = buildId
  | .consumeBuildStage id _ _ => id = buildId
  | _ => False

/-- What a stage requires of a BOM line. -/
def stageRequirement (ctx : Ctx) (db : Db) (buildId stageId entryId : Uuid) : Except Err ℤ := do
  let build ← getBuild ctx db buildId
  let project ← getProject ctx db build.projectId
  return (Dict.find entryId
    (requiredOfStage db ctx.workspaceId build project stageId)).getD 0

/-- The requirement of the stage a call consumes; nothing for any other call. -/
def requiredAt (entryId : Uuid) (call : Call) (db : Db) : ℤ :=
  match call.request, exec call db with
  | .consumeBuildStage buildId stageId _, .ok _ =>
    match stageRequirement call.ctx db buildId stageId entryId with
    | .ok quantity => quantity
    | .error _ => 0
  | _, _ => 0

def requiredDuring (entryId : Uuid) : Db → List Call → ℤ
  | _, [] => 0
  | db, call :: calls =>
    requiredAt entryId call db + requiredDuring entryId (Outcome.settle db (exec call db)) calls

section Portions

variable (db : Db) (workspaceId : Uuid) (build : Build) (entryId : Uuid)

/-- The portions all stages of the build take of a BOM line. -/
def portionSum : Decimal :=
  tally (fun l => l.projectEntryId = entryId) (·.portionPct) (linesOf db workspaceId build)

def completePct : Decimal :=
  tally (fun l => l.projectEntryId = entryId ∧ ∃ s ∈ listStages db workspaceId build,
    s.id = l.buildStageId ∧ s.status = .complete) (·.portionPct) (linesOf db workspaceId build)

def takesFrom (s : BuildStage) : Prop :=
  ∃ l ∈ linesOf db workspaceId build, l.buildStageId = s.id ∧ l.projectEntryId = entryId

end Portions

/-- An explicit sequence number puts a new portion of the line after every
portion already consumed. -/
def KeepsStageOrder (entryId : Uuid) (call : Call) (db : Db) : Prop :=
  match call.request with
  | .createBuildStage buildId payload =>
    ∀ sequence ∈ payload.sequence, (exec call db).isOk →
      (∃ line ∈ payload.lines, line.projectEntryId = entryId) →
      ∀ build ∈ db.build buildId, ∀ s ∈ listStages db call.ctx.workspaceId build,
        s.status = .complete → takesFrom db call.ctx.workspaceId build entryId s →
        s.sequence < sequence
  | _ => True

/-- The drawn quantity is the share of the portions consumed, and these come
first in stage order. -/
structure DrawnInOrder (db : Db) (workspaceId : Uuid) (build : Build) (entryId : Uuid)
    (total : Decimal) (drawn : ℤ) : Prop where
  drawn : drawn = share total (completePct db workspaceId build entryId)
  inOrder : ∀ s ∈ listStages db workspaceId build, ∀ t ∈ listStages db workspaceId build,
    takesFrom db workspaceId build entryId s → takesFrom db workspaceId build entryId t →
    s.status = .complete → t.status ≠ .complete → s.sequence < t.sequence

section Create

variable {ctx : Ctx} {db db' : Db} {build : Build} {project : Project}
  {payload : BuildStageCreateIn} {stage : BuildStage} {entryId : Uuid}

theorem nextSequence_default {existing : List BuildStage} {n : ℕ}
    (h : nextSequence existing none = .ok n) : ∀ s ∈ existing, s.sequence < n := by
  intro s hs
  have hmem : s.sequence + 1 ∈ existing.map fun s => s.sequence + 1 := List.mem_map_of_mem hs
  simp only [nextSequence, Except.ok.injEq] at h
  cases hmax : (existing.map fun s => s.sequence + 1).max? with
  | none => simp [List.max?_eq_none_iff.mp hmax] at hmem
  | some m =>
    have hle := (List.max?_eq_some_iff.mp hmax).2 _ hmem
    rw [hmax, Option.getD_some] at h
    omega

theorem nextSequence_explicit {existing : List BuildStage} {m n : ℕ}
    (h : nextSequence existing (some m) = .ok n) : m = n := by
  simp only [nextSequence, Outcome.check_bind_ok, Outcome.pure_ok] at h
  exact h.2

theorem StageCreated.old_ne (h : StageCreated ctx db db' build project payload stage)
    {s : BuildStage} (hs : s ∈ listStages db ctx.workspaceId build) : s.id ≠ stage.id :=
  h.fresh s (mem_listStages.mp hs).1

theorem drawnInOrder_created (h : StageCreated ctx db db' build project payload stage)
    (hw : WellStaged db) {total : Decimal} {drawn : ℤ}
    (hd : DrawnInOrder db ctx.workspaceId build entryId total drawn)
    (hseq : ∀ sequence ∈ payload.sequence,
      (∃ line ∈ payload.lines, line.projectEntryId = entryId) →
      ∀ s ∈ listStages db ctx.workspaceId build, s.status = .complete →
        takesFrom db ctx.workspaceId build entryId s → s.sequence < sequence) :
    DrawnInOrder db' ctx.workspaceId build entryId total drawn := by
  obtain ⟨rows, hlines, hrows⟩ := linesOf_created h hw
  have hplanned : stage.status ≠ .complete := by
    rw [h.row]
    simp [newStage]
  have hrow : ∀ l ∈ rows, l.buildStageId = stage.id := by
    intro l hl
    obtain ⟨line, _, hof⟩ := exists_of_forall₂ hrows hl
    exact hof.stage
  have hold : ∀ s ∈ listStages db ctx.workspaceId build,
      takesFrom db' ctx.workspaceId build entryId s →
        takesFrom db ctx.workspaceId build entryId s := by
    rintro s hs ⟨l, hl, hstage, hentry⟩
    rw [hlines, List.mem_append] at hl
    rcases hl with hl | hl
    · exact ⟨l, hl, hstage, hentry⟩
    · exact absurd (hstage.symm.trans (hrow l hl)) (h.old_ne hs)
  constructor
  case drawn =>
    rw [hd.drawn, completePct, completePct, hlines, Tally.tally_append]
    have hnew : tally (fun l => l.projectEntryId = entryId ∧
        ∃ s ∈ listStages db' ctx.workspaceId build, s.id = l.buildStageId ∧
          s.status = .complete) (·.portionPct) rows = 0 := by
      apply Tally.tally_eq_zero
      rintro l hl ⟨_, s, hs, hid, hcomplete⟩
      rcases (mem_listStages_created h).mp hs with hs | rfl
      · exact h.old_ne hs (hid.trans (hrow l hl))
      · exact hplanned hcomplete
    rw [hnew, add_zero]
    congr 1
    apply Tally.tally_congr
    · intro l _
      refine and_congr_right fun _ => ?_
      constructor
      · rintro ⟨s, hs, hid, hcomplete⟩
        exact ⟨s, (mem_listStages_created h).mpr (Or.inl hs), hid, hcomplete⟩
      · rintro ⟨s, hs, hid, hcomplete⟩
        rcases (mem_listStages_created h).mp hs with hs | rfl
        · exact ⟨s, hs, hid, hcomplete⟩
        · exact absurd hcomplete hplanned
    · exact fun _ _ _ => rfl
  case inOrder =>
    intro s hs t ht htakes htTakes hcomplete htPending
    rcases (mem_listStages_created h).mp hs with hs | rfl
    · have hsTakes := hold s hs htakes
      rcases (mem_listStages_created h).mp ht with ht | rfl
      · exact hd.inOrder s hs t ht hsTakes (hold t ht htTakes) hcomplete htPending
      · cases hpayload : payload.sequence with
        | none => exact nextSequence_default (hpayload ▸ h.sequence) s hs
        | some n =>
          obtain ⟨l, hl, hstage, hentry⟩ := htTakes
          have hline : ∃ line ∈ payload.lines, line.projectEntryId = entryId := by
            rw [hlines, List.mem_append] at hl
            rcases hl with hl | hl
            · obtain ⟨r, hr, hid⟩ := List.mem_map.mp (linesOf_stage hl)
              exact absurd (hid.trans hstage) (h.old_ne hr)
            · obtain ⟨line, hline, hof⟩ := exists_of_forall₂ hrows hl
              exact ⟨line, hline, hof.entry.symm.trans hentry⟩
          have hsequence := h.sequence
          rw [hpayload] at hsequence
          rw [← nextSequence_explicit hsequence]
          exact hseq n hpayload hline s hs hcomplete hsTakes
    · exact absurd hcomplete hplanned

end Create

section Consume

variable {ctx : Ctx} {db db' : Db} {build : Build} {project : Project} {stage : BuildStage}
  {payload : ConsumeIn} {workspaceId entryId : Uuid} {entry : ProjectEntry} {part : Part}
  {closes : Prop} [Decidable closes]

theorem takesFrom_marked (h : StageMarked ctx db db' build stage closes) {s : BuildStage} :
    takesFrom db' workspaceId build entryId (markRow ctx stage s) ↔
      takesFrom db workspaceId build entryId s := by
  simp only [takesFrom, linesOf_marked h, markRow_id]

theorem completePct_marked (h : StageMarked ctx db db' build stage closes)
    (hstage : stage ∈ listStages db workspaceId build) (hw : WellStaged db)
    (hpending : stage.status ≠ .complete) :
    completePct db' workspaceId build entryId =
      completePct db workspaceId build entryId +
        tally (fun l => l.projectEntryId = entryId ∧ l.buildStageId = stage.id) (·.portionPct)
          (linesOf db workspaceId build) := by
  have hdone : ∀ id, (∃ s ∈ listStages db' workspaceId build, s.id = id ∧
      s.status = .complete) ↔ (∃ s ∈ listStages db workspaceId build, s.id = id ∧
        s.status = .complete) ∨ id = stage.id := by
    intro id
    rw [listStages_marked h]
    simp only [List.mem_map, exists_exists_and_eq_and, markRow_id, markRow_complete]
    constructor
    · rintro ⟨s, hs, rfl, hcomplete | hid⟩
      · exact Or.inl ⟨s, hs, rfl, hcomplete⟩
      · exact Or.inr hid
    · rintro (⟨s, hs, hid, hcomplete⟩ | rfl)
      · exact ⟨s, hs, hid, Or.inl hcomplete⟩
      · exact ⟨stage, hstage, rfl, Or.inr rfl⟩
  -- The stage itself was not among the complete ones.
  have hnot : ¬ ∃ s ∈ listStages db workspaceId build, s.id = stage.id ∧
      s.status = .complete := by
    rintro ⟨s, hs, hid, hcomplete⟩
    rw [stage_eq_of_id hw (mem_listStages.mp hs).1
      (mem_listStages.mp hstage).1 hid] at hcomplete
    exact hpending hcomplete
  rw [completePct, completePct, linesOf_marked h,
    Tally.tally_split _ fun l => l.buildStageId = stage.id, add_comm]
  congr 1
  · apply Tally.tally_congr
    · intro l _
      rw [hdone]
      constructor
      · rintro ⟨⟨hentry, hold | hid⟩, hne⟩
        · exact ⟨hentry, hold⟩
        · exact absurd hid hne
      · rintro ⟨hentry, hold⟩
        exact ⟨⟨hentry, Or.inl hold⟩, fun hid => hnot (hid ▸ hold)⟩
    · exact fun _ _ _ => rfl
  · apply Tally.tally_congr
    · intro l _
      rw [hdone]
      exact ⟨fun ⟨⟨hentry, _⟩, hid⟩ => ⟨hentry, hid⟩,
        fun ⟨hentry, hid⟩ => ⟨⟨hentry, Or.inr hid⟩, hid⟩⟩
    · exact fun _ _ _ => rfl

theorem StageConsumed.requirement
    (h : StageConsumed ctx db db' build project stage payload) (hw : WellStaged db)
    (hbom : BomLine db ctx.workspaceId project entryId entry part)
    (hnonneg : 0 ≤ required entry (some part) build.quantity)
    (hstage : stage ∈ listStages db ctx.workspaceId build) {drawn : ℤ}
    (hd : DrawnInOrder db ctx.workspaceId build entryId
      (required entry (some part) build.quantity) drawn) :
    let done := completePct db ctx.workspaceId build entryId
    let taken := tally (fun l => l.projectEntryId = entryId ∧ l.buildStageId = stage.id)
      (·.portionPct) (linesOf db ctx.workspaceId build)
    (Dict.find entryId (requiredOfStage db ctx.workspaceId build project stage.id)).getD 0 =
      share (required entry (some part) build.quantity) (done + taken) -
        share (required entry (some part) build.quantity) done := by
  intro done taken
  have htotal : (0 : Decimal) ≤ required entry (some part) build.quantity :=
    Int.cast_nonneg hnonneg
  rw [find_requiredOfStage]
  by_cases hline : ∃ l ∈ linesOf db ctx.workspaceId build,
      l.projectEntryId = entryId ∧ l.buildStageId = stage.id
  · obtain ⟨l, hl, hentry, hid⟩ := hline
    have hslice := slice_of_line hw.lines hbom hnonneg hl hentry
    have hbefore : takenBefore (stageIdsOf db ctx.workspaceId build)
        (linesOf db ctx.workspaceId build) entryId l.buildStageId = done := by
      rw [hid]
      apply Tally.tally_congr
      · intro m hm
        refine and_congr_right fun hmEntry => ?_
        rw [mem_earlierIds hw hstage]
        constructor
        · rintro ⟨s, hs, hlt, hsid⟩
          exact ⟨s, hs, hsid, h.inOrder s ((mem_earlier hw hstage).mpr ⟨hs, hlt⟩)⟩
        · rintro ⟨s, hs, hsid, hcomplete⟩
          exact ⟨s, hs, hd.inOrder s hs stage hstage ⟨m, hm, hsid.symm, hmEntry⟩
            ⟨l, hl, hid, hentry⟩ hcomplete h.pending, hsid⟩
      · exact fun _ _ _ => rfl
    have htaken : taken = l.portionPct := by
      have hsub : (linesOf db ctx.workspaceId build).Sublist db.buildStageLines :=
        List.filter_sublist
      have hkeys := (hsub.map fun l : BuildStageLine =>
        (l.buildStageId, l.projectEntryId)).nodup hw.lines
      have hkey := Tally.tally_key (·.portionPct) _ hkeys hl
      rw [← hkey]
      apply Tally.tally_congr
      · intro m _
        simp only [Prod.mk.injEq, hid, hentry]
        exact and_comm
      · exact fun _ _ _ => rfl
    rw [← hid, hslice, hbefore, htaken]
    have hgrow : 0 ≤ share (required entry (some part) build.quantity) (done + l.portionPct) -
        share (required entry (some part) build.quantity) done :=
      sub_nonneg.mpr (share_mono htotal (le_add_of_nonneg_right (le_of_lt l.portionRange.1)))
    rw [Option.filter_some]
    split
    next => rfl
    next hzero =>
      have hle := not_lt.mp fun hpos => hzero (decide_eq_true hpos)
      exact le_antisymm hgrow hle
  · have hnone := slice_of_no_line stage.id hw.lines hbom
      fun l hl hentry hid => hline ⟨l, hl, hentry, hid⟩
    have htaken : taken = 0 := Tally.tally_eq_zero _ _ fun l hl hl' => hline ⟨l, hl, hl'⟩
    rw [hnone, htaken, add_zero, sub_self]
    rfl

theorem drawnInOrder_consumed (h : StageConsumed ctx db db' build project stage payload)
    (hw : WellStaged db) (hbom : BomLine db ctx.workspaceId project entryId entry part)
    (hnonneg : 0 ≤ required entry (some part) build.quantity)
    (hstage : stage ∈ listStages db ctx.workspaceId build) {drawn : ℤ}
    (hd : DrawnInOrder db ctx.workspaceId build entryId
      (required entry (some part) build.quantity) drawn) :
    DrawnInOrder db' ctx.workspaceId build entryId (required entry (some part) build.quantity)
      (drawn + (Dict.find entryId
        (requiredOfStage db ctx.workspaceId build project stage.id)).getD 0) := by
  have hmarked := consumeStage_marked h
  constructor
  case drawn =>
    rw [h.requirement hw hbom hnonneg hstage hd, hd.drawn,
      completePct_marked hmarked hstage hw h.pending]
    ring
  case inOrder =>
    intro s hs t ht hsTakes htTakes hcomplete htPending
    rw [listStages_marked hmarked, List.mem_map] at hs ht
    obtain ⟨s, hs, rfl⟩ := hs
    obtain ⟨t, ht, rfl⟩ := ht
    rw [takesFrom_marked hmarked] at hsTakes htTakes
    rw [markRow_complete] at hcomplete
    rw [ne_eq, markRow_complete, not_or] at htPending
    rw [markRow_sequence, markRow_sequence]
    rcases hcomplete with hcomplete | hid
    · exact hd.inOrder s hs t ht hsTakes htTakes hcomplete htPending.1
    · -- `s` is the stage consumed: a pending stage is not before it.
      have hsame : s = stage :=
        stage_eq_of_id hw (mem_listStages.mp hs).1 (mem_listStages.mp hstage).1 hid
      subst hsame
      by_contra hle
      have hne : t.sequence ≠ s.sequence := by
        intro heq
        have ht' := mem_listStages.mp ht
        have hs' := mem_listStages.mp hs
        have hts := hw.sequences t ht'.1 s hs'.1 ht'.2.2.2 hs'.2.2.2
          (ht'.2.2.1.trans hs'.2.2.1.symm) heq
        exact htPending.2 (congrArg BuildStage.id hts)
      have hlt : t.sequence < s.sequence := lt_of_le_of_ne (not_lt.mp hle) hne
      exact htPending.1 (h.inOrder t ((mem_earlier hw hs).mpr ⟨ht, hlt⟩))

end Consume

/-- The state of a staged build: its row, its project and BOM line, and what
has been drawn. -/
structure StagedSoFar (db : Db) (build : Build) (project : Project) (entryId : Uuid)
    (entry : ProjectEntry) (part : Part) (drawn : ℤ) : Prop where
  staged : WellStaged db
  projectRow : db.project build.projectId = some project
  bom : BomLine db build.workspaceId project entryId entry part
  draw : DrawnInOrder db build.workspaceId build entryId
    (required entry (some part) build.quantity) drawn
  row : ∃ b, db.build build.id = some b ∧ SameBuildRow build b ∧
    (b.status = .complete → ∀ s ∈ listStages db build.workspaceId build, s.status = .complete)

section Run

variable {db db' : Db} {build : Build} {project : Project} {entryId : Uuid}
  {entry : ProjectEntry} {part : Part} {drawn : ℤ} {ctx : Ctx}

theorem drawnInOrder_row {b : Build} (h : SameBuildRow build b) {workspaceId : Uuid}
    {total : Decimal} : DrawnInOrder db workspaceId b entryId total drawn ↔
      DrawnInOrder db workspaceId build entryId total drawn := by
  have hpct : completePct db workspaceId b entryId = completePct db workspaceId build entryId := by
    simp only [completePct, listStages_row h, linesOf_row h]
  have htakes : ∀ s, takesFrom db workspaceId b entryId s ↔
      takesFrom db workspaceId build entryId s := by
    intro s
    simp only [takesFrom, linesOf_row h]
  constructor
  · intro hd
    constructor
    case drawn => exact hpct ▸ hd.drawn
    case inOrder => simpa only [listStages_row h, htakes] using hd.inOrder
  · intro hd
    constructor
    case drawn => exact hpct ▸ hd.drawn
    case inOrder => simpa only [listStages_row h, htakes] using hd.inOrder

theorem stagedSoFar_created (h : StagedSoFar db build project entryId entry part drawn)
    {payload : BuildStageCreateIn} {stage : BuildStage}
    (hcreate : createBuildStage ctx db build.id payload = .ok (stage, db'))
    (hcond : KeepsStageOrder entryId ⟨ctx, .createBuildStage build.id payload⟩ db) :
    StagedSoFar db' build project entryId entry part drawn := by
  obtain ⟨b, p, hb, hws, _, hcreated⟩ := createBuildStage_ok hcreate
  obtain ⟨b', hb', hrow, _⟩ := h.row
  obtain rfl : b = b' := Option.some.inj (hb.symm.trans hb')
  rw [hrow.workspaceId] at hws
  have hseq : ∀ sequence ∈ payload.sequence,
      (∃ line ∈ payload.lines, line.projectEntryId = entryId) →
      ∀ s ∈ listStages db ctx.workspaceId b, s.status = .complete →
        takesFrom db ctx.workspaceId b entryId s → s.sequence < sequence := by
    intro sequence hsequence hline s hs hcomplete htakes
    refine hcond sequence hsequence ?_ hline b hb s hs hcomplete htakes
    simp [exec, hcreate, Except.map, Except.isOk, Except.toBool]
  have hdraw := h.draw
  rw [hws, ← drawnInOrder_row hrow] at hdraw
  have hdraw' := drawnInOrder_created hcreated h.staged hdraw hseq
  have hstaged := wellStaged_created hcreated h.staged
  have hnotClosed := hcreated.notClosed
  have hsame : SameBom db db' := by
    obtain ⟨rows, rfl, _⟩ := hcreated.rows
    exact ⟨rfl, rfl, rfl⟩
  obtain ⟨rows, rfl, _⟩ := hcreated.rows
  constructor
  case staged => exact hstaged
  case projectRow => exact h.projectRow
  case bom => exact hsame.bomLine h.bom
  case draw =>
    rw [hws, ← drawnInOrder_row hrow]
    exact hdraw'
  case row => exact ⟨b, hb, hrow, fun hcomplete => absurd hcomplete hnotClosed.1⟩

theorem stagedSoFar_consumed (h : StagedSoFar db build project entryId entry part drawn)
    (hnonneg : 0 ≤ required entry (some part) build.quantity) {stageId : Uuid}
    {payload : ConsumeIn} {result : StageConsumeResult}
    (hconsume : consumeBuildStage ctx db build.id stageId payload = .ok (result, db')) :
    StagedSoFar db' build project entryId entry part
      (drawn + requiredAt entryId ⟨ctx, .consumeBuildStage build.id stageId payload⟩ db) := by
  obtain ⟨b, p, stage, hb, hp, hs, rfl, hconsumed⟩ := consumeBuildStage_ok hconsume
  have hreq : requiredAt entryId ⟨ctx, .consumeBuildStage build.id stage.id payload⟩ db =
      (Dict.find entryId (requiredOfStage db ctx.workspaceId b p stage.id)).getD 0 := by
    have hcall : stageRequirement ctx db build.id stage.id entryId =
        .ok ((Dict.find entryId (requiredOfStage db ctx.workspaceId b p stage.id)).getD 0) := by
      simp only [stageRequirement, Outcome.bind_ok, Outcome.pure_ok]
      exact ⟨b, hb, p, hp, rfl⟩
    simp only [requiredAt, exec, hconsume, Except.map, hcall]
  obtain ⟨b', hb', hrow, _⟩ := h.row
  obtain ⟨hbuild, hws⟩ := getBuild_ok.mp hb
  obtain rfl : b = b' := Option.some.inj (hbuild.symm.trans hb')
  rw [hrow.workspaceId] at hws
  obtain rfl : p = project := by
    have hproject := (getProject_ok.mp hp).1
    rw [hrow.projectId, h.projectRow] at hproject
    exact (Option.some.inj hproject).symm
  obtain ⟨hfound, hstageWs, hstageBuild, hactive⟩ := getStage_ok.mp hs
  have hstage : stage ∈ listStages db ctx.workspaceId b :=
    mem_listStages.mpr ⟨List.mem_of_find?_eq_some hfound, hstageWs, hstageBuild, hactive⟩
  have hmarked := consumeStage_marked hconsumed
  have hdraw := h.draw
  have hbom := h.bom
  rw [hws] at hbom
  rw [hws, ← drawnInOrder_row hrow, ← hrow.quantity] at hdraw
  have hdraw' := drawnInOrder_consumed hconsumed h.staged hbom (hrow.quantity ▸ hnonneg) hstage
    hdraw
  constructor
  case staged => exact wellStaged_marked hmarked h.staged
  case projectRow =>
    rw [Db.project, hmarked.bom.projects]
    exact h.projectRow
  case bom => exact hmarked.bom.bomLine h.bom
  case draw =>
    rw [hreq, hws, ← drawnInOrder_row hrow, ← hrow.quantity]
    exact hdraw'
  case row =>
    obtain ⟨c, hc, hsame, hstatus⟩ := stageMarked_row hmarked (hrow.id ▸ hbuild)
    refine ⟨c, hrow.id ▸ hc, hrow.trans hsame, ?_⟩
    intro hcomplete s hs
    rw [hstatus] at hcomplete
    rw [hws, listStages_marked hmarked, List.mem_map] at hs
    obtain ⟨s, hs, rfl⟩ := hs
    rw [markRow_complete]
    split at hcomplete
    next hlast =>
      by_contra hpending
      rw [not_or] at hpending
      have hin := List.filter_eq_nil_iff.mp hlast s (by rwa [listStages_row hrow])
      exact hin (decide_eq_true ⟨hpending.2, hpending.1⟩)
    next =>
      have hopen := hconsumed.statusOpen
      split at hcomplete
      next => cases hcomplete
      next => rcases hopen with hopen | hopen <;> simp [hopen] at hcomplete

theorem stagedSoFar_call (h : StagedSoFar db build project entryId entry part drawn)
    (hnonneg : 0 ≤ required entry (some part) build.quantity) {call : Call}
    (hstage : call.request.isStageOf build.id) (hcond : KeepsStageOrder entryId call db) :
    StagedSoFar (Outcome.settle db (exec call db)) build project entryId entry part
      (drawn + requiredAt entryId call db) := by
  obtain ⟨ctx, request⟩ := call
  cases hexec : exec ⟨ctx, request⟩ db with
  | error e =>
    have hnone : requiredAt entryId ⟨ctx, request⟩ db = 0 := by
      rw [requiredAt, hexec]
      split <;> simp_all
    rw [hnone, add_zero]
    exact h
  | ok db' =>
    cases request with
    | createBuildStage buildId payload =>
      obtain rfl : buildId = build.id := hstage
      obtain ⟨⟨stage, _⟩, hcreate, rfl⟩ := Outcome.map_ok.mp hexec
      have hnone : requiredAt entryId ⟨ctx, .createBuildStage build.id payload⟩ db = 0 := rfl
      rw [hnone, add_zero]
      exact stagedSoFar_created h hcreate hcond
    | consumeBuildStage buildId stageId payload =>
      obtain rfl : buildId = build.id := hstage
      obtain ⟨⟨result, _⟩, hconsume, rfl⟩ := Outcome.map_ok.mp hexec
      exact stagedSoFar_consumed h hnonneg hconsume
    | _ => exact hstage.elim

theorem stagedSoFar_run (h : StagedSoFar db build project entryId entry part drawn)
    (hnonneg : 0 ≤ required entry (some part) build.quantity) {calls : List Call}
    (hcalls : ∀ call ∈ calls, call.request.isStageOf build.id)
    (hmeets : Outcome.Meets exec (KeepsStageOrder entryId) db calls) :
    StagedSoFar (runCalls db calls) build project entryId entry part
      (drawn + requiredDuring entryId db calls) := by
  induction calls generalizing db drawn with
  | nil =>
    rw [requiredDuring, add_zero]
    exact h
  | cons call calls ih =>
    have hnext := stagedSoFar_call h hnonneg (hcalls call (List.mem_cons_self ..)) hmeets.1
    have hrest := ih hnext (fun c hc => hcalls c (List.mem_cons_of_mem _ hc)) hmeets.2
    rw [requiredDuring, ← add_assoc]
    exact hrest

theorem StagedSoFar.start (hstaged : WellStaged db) (hb : db.build build.id = some build)
    (hproject : db.project build.projectId = some project)
    (hbom : BomLine db build.workspaceId project entryId entry part)
    (hnonneg : 0 ≤ required entry (some part) build.quantity)
    (hnone : listStages db build.workspaceId build = []) :
    StagedSoFar db build project entryId entry part 0 := by
  constructor
  case staged => exact hstaged
  case projectRow => exact hproject
  case bom => exact hbom
  case draw =>
    constructor
    case drawn =>
      have hzero : completePct db build.workspaceId build entryId = 0 := by
        apply Tally.tally_eq_zero
        rintro l _ ⟨_, s, hs, _⟩
        rw [hnone] at hs
        cases hs
      rw [hzero, share_zero (Int.cast_nonneg hnonneg)]
    case inOrder =>
      intro s hs
      rw [hnone] at hs
      cases hs
  case row =>
    refine ⟨build, hb, SameBuildRow.refl build, ?_⟩
    intro _ s hs
    rw [hnone] at hs
    cases hs

theorem completePct_all {workspaceId : Uuid}
    (h : ∀ s ∈ listStages db workspaceId build, s.status = .complete) :
    completePct db workspaceId build entryId = portionSum db workspaceId build entryId := by
  apply Tally.tally_congr
  · intro l hl
    obtain ⟨s, hs, hid⟩ := List.mem_map.mp (linesOf_stage hl)
    exact ⟨And.left, fun hentry => ⟨hentry, s, hs, hid, h s hs⟩⟩
  · exact fun _ _ _ => rfl

/-- Stages that keep the order draw, all together, what one pass requires. -/
theorem stagedBuild_drawsWhole {db₀ : Db} (hstaged : WellStaged db₀)
    (hb : db₀.build build.id = some build) (hproject : db₀.project build.projectId = some project)
    (hnone : listStages db₀ build.workspaceId build = [])
    (hbom : BomLine db₀ build.workspaceId project entryId entry part)
    (hnonneg : 0 ≤ required entry (some part) build.quantity) {calls : List Call}
    (hcalls : ∀ call ∈ calls, call.request.isStageOf build.id)
    (hmeets : Outcome.Meets exec (KeepsStageOrder entryId) db₀ calls)
    (hcomplete : ∃ b ∈ (runCalls db₀ calls).build build.id, b.status = .complete)
    (hwhole : portionSum (runCalls db₀ calls) build.workspaceId build entryId = 100) :
    requiredDuring entryId db₀ calls = required entry (some part) build.quantity := by
  have hstart := StagedSoFar.start hstaged hb hproject hbom hnonneg hnone
  have hend := stagedSoFar_run hstart hnonneg hcalls hmeets
  obtain ⟨b, hfound, hstatus⟩ := hcomplete
  obtain ⟨b', hfound', _, hall⟩ := hend.row
  obtain rfl : b = b' := Option.some.inj (hfound.symm.trans hfound')
  have hdrawn := hend.draw.drawn
  rw [zero_add, completePct_all (hall hstatus), hwhole, share_hundred] at hdrawn
  exact hdrawn

end Run

/-- A planned build of 103 bolts and a nut, with the parts on the shelf. -/
def sampleStagedDb : Db :=
  runCalls
    { sampleDb with
      projects := [⟨30, 1, none⟩]
      projectEntries := [sampleEntry 40 10 103, sampleEntry 41 11 1] }
    [⟨sampleCtx 1000, .ledger (sampleAdd 10 20 200 false (by decide))⟩,
      ⟨sampleCtx 2000, .ledger (sampleAdd 11 20 5 false (by decide))⟩,
      ⟨sampleCtx 3000, sampleBuild 1 (by decide)⟩]

def sampleStagedBuild : Build :=
  newBuild (sampleCtx 3000) (sampleBuildIn 1 (by decide)) ⟨30, 1, none⟩

theorem sampleStagedDb_wellStaged : WellStaged sampleStagedDb :=
  .empty (by decide +kernel) (by decide +kernel)

theorem sampleStagedDb_bomLine : BomLine sampleStagedDb 1 ⟨30, 1, none⟩ 40
    (sampleEntry 40 10 103) (samplePart 10 "bolt") := by
  constructor
  case found => decide +kernel
  case consumable => decide
  case part => decide +kernel

/-- Two halves of the bolts, consumed in the order they were created. -/
theorem stagedBuild_drawsWhole_sample :
    requiredDuring 40 sampleStagedDb
      [⟨sampleCtx 4000, sampleStage 3000 none 40 50 (by decide)⟩,
        ⟨sampleCtx 5000, sampleStage 3000 none 40 50 (by decide)⟩,
        ⟨sampleCtx 6000, sampleConsume 3000 4001 40 10 52 (by decide)⟩,
        ⟨sampleCtx 7000, sampleConsume 3000 5001 40 10 51 (by decide)⟩] =
      required (sampleEntry 40 10 103) (some (samplePart 10 "bolt")) 1 := by
  have hb : sampleStagedDb.build sampleStagedBuild.id = some sampleStagedBuild := by
    decide +kernel
  apply stagedBuild_drawsWhole sampleStagedDb_wellStaged hb (by decide +kernel)
    (by decide +kernel) sampleStagedDb_bomLine (by decide +kernel)
  · simp [Request.isStageOf, sampleStage, sampleConsume, sampleStagedBuild, newBuild, sampleCtx,
      Ctx.uuid4]
  · refine ⟨?_, ?_, trivial, trivial, trivial⟩ <;> exact fun n h => by cases h
  · decide +kernel
  · decide +kernel

/-- A half put in front of the half already consumed draws a bolt too many. -/
theorem createStage_shifts_drawn_slice :
    ¬ ∀ calls : List Call, (∀ call ∈ calls, call.request.isStageOf sampleStagedBuild.id) →
      (∃ b ∈ (runCalls sampleStagedDb calls).build sampleStagedBuild.id, b.status = .complete) →
      portionSum (runCalls sampleStagedDb calls) 1 sampleStagedBuild 40 = 100 →
      requiredDuring 40 sampleStagedDb calls =
        required (sampleEntry 40 10 103) (some (samplePart 10 "bolt"))
          sampleStagedBuild.quantity := by
  intro h
  have hrun := h
    [⟨sampleCtx 4000, sampleStage 3000 (some 5) 40 50 (by decide)⟩,
      ⟨sampleCtx 5000, sampleStage 3000 (some 9) 41 100 (by decide)⟩,
      ⟨sampleCtx 6000, sampleConsume 3000 4001 40 10 52 (by decide)⟩,
      ⟨sampleCtx 7000, sampleStage 3000 (some 0) 40 50 (by decide)⟩,
      ⟨sampleCtx 8000, sampleConsume 3000 7001 40 10 52 (by decide)⟩,
      ⟨sampleCtx 9000, sampleConsume 3000 5001 41 11 1 (by decide)⟩]
    (by simp [Request.isStageOf, sampleStage, sampleConsume, sampleStagedBuild, newBuild,
      sampleCtx, Ctx.uuid4]) (by decide +kernel) (by decide +kernel)
  revert hrun
  decide +kernel

end StockManager
