import Mathlib
import StockManager.Effects.Reservations
import StockManager.Library.CumulativeSplit

/-! # What the stage services do (domain/builds/stages.py) -/

namespace StockManager

section ConsumeStage

variable {ctx : Ctx} {db db' : Db} {build : Build} {project : Project} {stage : BuildStage}
  {payload : ConsumeIn} {result : StageConsumeResult}

/-- What `consume_stage` has checked, and the states it goes through. -/
structure StageConsumed (ctx : Ctx) (db db' : Db) (build : Build) (project : Project)
    (stage : BuildStage) (payload : ConsumeIn) : Prop where
  active : build.archivedAt = none
  statusOpen : build.status.isOpen
  pending : stage.status ≠ .complete
  inOrder : ∀ s ∈ (listStages db ctx.workspaceId build).takeWhile (fun s => s.id ≠ stage.id),
    s.status = .complete
  something : requiredOfStage db ctx.workspaceId build project stage.id ≠ []
  states : ∃ n db₁ rows db₂,
    releaseReservationAmounts (ctx.child 0) db build
      (releaseAmounts (projectEntriesById db ctx.workspaceId project)
        (requiredOfStage db ctx.workspaceId build project stage.id)) (some stage.id) =
      .ok (n, db₁) ∧
    applyConsumeLines (ctx.child 1) db₁ build project payload.lines
      (projectEntriesById db ctx.workspaceId project)
      (requiredOfStage db ctx.workspaceId build project stage.id) ctx.utcnow (some stage.id) =
      .ok (rows, db₂) ∧
    if (listStages db ctx.workspaceId build).filter
        (fun s => s.id ≠ stage.id ∧ s.status ≠ .complete) = [] then
      ∃ output, finishBuild (ctx.child 2) (markStageConsumed ctx db₂ build stage ctx.utcnow) build
        project payload ctx.utcnow = .ok (output, db')
    else db' = markStageConsumed ctx db₂ build stage ctx.utcnow

theorem consumeStage_ok (hb : db.build build.id = some build)
    (hs : db.buildStage stage.id = some stage)
    (h : consumeStage ctx db build project stage payload = .ok (result, db')) :
    StageConsumed ctx db db' build project stage payload := by
  simp only [consumeStage, Outcome.bind_ok, Outcome.check_ok, exists_const, hb, hs,
    Option.getD_some, Outcome.each_ok] at h
  obtain ⟨hactive, hopen, hpending, hearlier, hsome, ⟨n, db₁⟩, hrelease, ⟨rows, db₂⟩, hlines,
    hrest⟩ := h
  refine ⟨hactive, hopen, hpending, hearlier, hsome, n, db₁, rows, db₂, hrelease, hlines, ?_⟩
  split at hrest
  next hlast =>
    simp only [Outcome.bind_ok, Outcome.pure_ok, Prod.mk.injEq] at hrest
    obtain ⟨⟨output, db₃⟩, hfinish, _, rfl⟩ := hrest
    rw [if_pos hlast]
    exact ⟨output, hfinish⟩
  next hmore =>
    simp only [Outcome.pure_ok, Prod.mk.injEq] at hrest
    rw [if_neg hmore]
    exact hrest.2.symm

end ConsumeStage

section CreateStage

variable {ctx : Ctx} {db db' : Db} {build : Build} {project : Project}
  {payload : BuildStageCreateIn} {stage : BuildStage}

/-- The row of one payload line. -/
structure LineRowOf (workspaceId stageId : Uuid) (line : BuildStageLineIn) (row : BuildStageLine) :
    Prop where
  workspace : row.workspaceId = workspaceId
  stage : row.buildStageId = stageId
  entry : row.projectEntryId = line.projectEntryId
  portion : row.portionPct = line.portionPct
  active : row.archivedAt = none

theorem insertBuildStage_ok {row : BuildStage} :
    db.insertBuildStage row = .ok db' ↔ (∀ r ∈ db.buildStages, r.id ≠ row.id) ∧
      (∀ r ∈ db.buildStages, r.archivedAt = none → r.buildId = row.buildId →
        r.sequence ≠ row.sequence) ∧
      db' = { db with buildStages := db.buildStages ++ [row] } := by
  rw [Db.insertBuildStage, Outcome.check_bind_ok, Outcome.check_bind_ok, Outcome.pure_ok]
  exact and_congr_right fun _ => and_congr_right fun _ => eq_comm

theorem insertBuildStageLine_ok {row : BuildStageLine} :
    db.insertBuildStageLine row = .ok db' ↔ (∀ r ∈ db.buildStageLines, r.id ≠ row.id) ∧
      (∀ r ∈ db.buildStageLines, r.buildStageId = row.buildStageId →
        r.projectEntryId ≠ row.projectEntryId) ∧
      db' = { db with buildStageLines := db.buildStageLines ++ [row] } := by
  rw [Db.insertBuildStageLine, Outcome.check_bind_ok, Outcome.check_bind_ok, Outcome.pure_ok]
  exact and_congr_right fun _ => and_congr_right fun _ => eq_comm

theorem insertStageLines_rows {stageId : Uuid} {lines : List BuildStageLineIn}
    (h : insertStageLines ctx db stageId lines = .ok db') :
    ∃ rows, db' = { db with buildStageLines := db.buildStageLines ++ rows } ∧
      List.Forall₂ (LineRowOf ctx.workspaceId stageId) lines rows := by
  induction lines generalizing ctx db with
  | nil =>
    cases h
    exact ⟨[], by simp, .nil⟩
  | cons line lines ih =>
    simp only [insertStageLines, Outcome.bind_ok, insertBuildStageLine_ok] at h
    obtain ⟨db₁, ⟨_, _, rfl⟩, hrest⟩ := h
    obtain ⟨rows, hdb, hrows⟩ := ih hrest
    refine ⟨newStageLine ctx (ctx.child 0).uuid4 stageId line :: rows, ?_,
      .cons ⟨rfl, rfl, rfl, rfl, rfl⟩ hrows⟩
    rw [hdb]
    simp

/-- Each stage names a BOM line at most once. -/
def LinesDistinct (db : Db) : Prop :=
  (db.buildStageLines.map fun l => (l.buildStageId, l.projectEntryId)).Nodup

theorem insertStageLines_distinct {stageId : Uuid} {lines : List BuildStageLineIn}
    (h : insertStageLines ctx db stageId lines = .ok db') (hdistinct : LinesDistinct db) :
    LinesDistinct db' := by
  induction lines generalizing ctx db with
  | nil =>
    cases h
    exact hdistinct
  | cons line lines ih =>
    simp only [insertStageLines, Outcome.bind_ok, insertBuildStageLine_ok] at h
    obtain ⟨db₁, ⟨_, hunique, rfl⟩, hrest⟩ := h
    refine ih hrest ?_
    rw [LinesDistinct, List.map_append, List.nodup_append]
    refine ⟨hdistinct, List.nodup_singleton _, ?_⟩
    intro a ha b hb hab
    obtain ⟨l, hl, rfl⟩ := List.mem_map.mp ha
    rw [List.map_singleton, List.mem_singleton] at hb
    subst hb
    obtain ⟨hstage, hentry⟩ := Prod.mk.inj hab
    exact hunique l hl hstage hentry

/-- What `create_stage` has checked, and the rows it adds. -/
structure StageCreated (ctx : Ctx) (db db' : Db) (build : Build) (project : Project)
    (payload : BuildStageCreateIn) (stage : BuildStage) : Prop where
  notClosed : build.status ≠ .complete ∧ build.status ≠ .cancelled
  active : build.archivedAt = none
  entries : checkStageLines (projectEntriesById db ctx.workspaceId project) [] payload.lines =
    .ok ()
  committed : ∀ line ∈ payload.lines, (Dict.find line.projectEntryId (committedPortions db
    ctx.workspaceId ((listStages db ctx.workspaceId build).map (·.id)))).getD 0 +
      line.portionPct ≤ 100
  sequence : nextSequence (listStages db ctx.workspaceId build) payload.sequence =
    .ok stage.sequence
  row : stage = newStage (ctx.child 0) build payload stage.sequence
  fresh : ∀ r ∈ db.buildStages, r.id ≠ stage.id
  unique : ∀ r ∈ db.buildStages, r.archivedAt = none → r.buildId = stage.buildId →
    r.sequence ≠ stage.sequence
  rows : ∃ rows, db' = { db with
      buildStages := db.buildStages ++ [stage]
      buildStageLines := db.buildStageLines ++ rows } ∧
    List.Forall₂ (LineRowOf ctx.workspaceId stage.id) payload.lines rows
  distinct : LinesDistinct db → LinesDistinct db'

theorem createStage_ok (h : createStage ctx db build project payload = .ok (stage, db')) :
    StageCreated ctx db db' build project payload stage := by
  simp only [createStage, Outcome.bind_ok, Outcome.check_ok, exists_const, Outcome.pure_ok,
    Outcome.each_ok, insertBuildStage_ok, Prod.mk.injEq, checkCommitted] at h
  obtain ⟨hstatus, hactive, _, hentries, hcommitted, sequence, hsequence, db₁,
    ⟨hfresh, hunique, rfl⟩, db₂, hlines, rfl, rfl⟩ := h
  obtain ⟨rows, hdb, hrows⟩ := insertStageLines_rows hlines
  constructor
  case notClosed => exact hstatus
  case active => exact hactive
  case entries => exact hentries
  case committed => exact hcommitted
  case sequence => exact hsequence
  case row => rfl
  case fresh => exact hfresh
  case unique => exact hunique
  case rows => exact ⟨rows, hdb, hrows⟩
  case distinct =>
    intro hd
    have hd' := insertStageLines_distinct hlines
    exact hd' hd

end CreateStage

end StockManager

/-! ## The slice a stage takes of a BOM line

`stage_allocations` walks the whole build; here is what it gives one stage for
one BOM line, in terms of the portions of the stages before it. -/

namespace StockManager

variable {entryId : Uuid} {l : BuildStageLine} {entry : ProjectEntry} {part : Part}

def share (total cumulative : Decimal) : ℤ := min ⌈total * cumulative / 100⌉ ⌈total⌉

section Share

variable {total : Decimal}

theorem share_zero (h : 0 ≤ total) : share total 0 = 0 := by
  have hceil : (0 : ℤ) ≤ ⌈total⌉ := Int.ceil_nonneg h
  rw [share, mul_zero, zero_div, Int.ceil_zero, min_eq_left hceil]

theorem share_mono (h : 0 ≤ total) : Monotone (share total) := by
  intro c d hcd
  have hmul : total * c / 100 ≤ total * d / 100 :=
    div_le_div_of_nonneg_right (mul_le_mul_of_nonneg_left hcd h) (by norm_num)
  exact min_le_min_right _ (Int.ceil_le_ceil hmul)

theorem share_hundred (n : ℤ) : share n 100 = n := by
  have hall : (n : Decimal) * 100 / 100 = n := mul_div_cancel_right₀ _ (by norm_num)
  rw [share, hall, min_self, Int.ceil_intCast]

theorem allocateFrom_slices (total c : Decimal) (previous : ℤ) (portions : List (Uuid × Decimal)) :
    allocateFrom total c previous portions =
      CumulativeSplit.slices (share total) c previous portions := by
  induction portions generalizing c previous with
  | nil => rfl
  | cons item rest ih =>
    obtain ⟨stageId, pct⟩ := item
    simp only [allocateFrom, CumulativeSplit.slices, ih]
    rfl

theorem allocate_nodup (total : Decimal) (portions : List (Uuid × Decimal)) :
    (Dict.keys (allocate total portions)).Nodup :=
  Dict.nodup_keys_foldl_put List.nodup_nil

theorem find_allocate {portions : List (Uuid × Decimal)} (hkeys : (portions.map Prod.fst).Nodup)
    (k : Uuid) : Dict.find k (allocate total portions) =
      Dict.find k (allocateFrom total 0 0 portions) := by
  have hslices : (Dict.keys (allocateFrom total 0 0 portions)).Nodup := by
    rw [Dict.keys, allocateFrom_slices, CumulativeSplit.keys_slices]
    exact hkeys
  rw [allocate, Dict.find_foldl_put, Dict.find_perm (List.reverse_perm _) hslices]
  simp [Dict.find]

theorem find_allocate_split (h : 0 ≤ total) {ps qs : List (Uuid × Decimal)} {k : Uuid} {p : Decimal}
    (hkeys : ((ps ++ (k, p) :: qs).map Prod.fst).Nodup) (hp : 0 ≤ p) :
    Dict.find k (allocate total (ps ++ (k, p) :: qs)) =
      some (share total (CumulativeSplit.total ps + p) - share total (CumulativeSplit.total ps)) := by
  have hslices : (Dict.keys (allocateFrom total 0 0 (ps ++ (k, p) :: qs))).Nodup := by
    rw [Dict.keys, allocateFrom_slices, CumulativeSplit.keys_slices]
    exact hkeys
  rw [find_allocate hkeys, ← Dict.mem_iff_find hslices, allocateFrom_slices]
  have hmem : (k, share total (0 + CumulativeSplit.total ps + p) -
      share total (0 + CumulativeSplit.total ps)) ∈
        CumulativeSplit.slices (share total) 0 (share total 0) (ps ++ (k, p) :: qs) :=
    CumulativeSplit.mem_slices (share_mono h) (le_add_of_nonneg_right hp)
  rw [share_zero h, zero_add] at hmem
  exact hmem

end Share

theorem mem_takeWhile_ne {ids : List Uuid} {a k : Uuid} (ha : a ∈ ids) :
    a ∈ ids.takeWhile (fun i => i ≠ k) ↔ ids.idxOf a < ids.idxOf k := by
  induction ids with
  | nil => cases ha
  | cons i ids ih =>
    by_cases hk : i = k
    · subst hk
      simp
    · by_cases hi : i = a
      · subst hi
        simp [hk, List.idxOf_cons_ne ids hk]
      · have ha' : a ∈ ids := (List.mem_cons.mp ha).resolve_left (Ne.symm hi)
        rw [List.takeWhile_cons_of_pos (by simpa using hk), List.mem_cons, ih ha',
          List.idxOf_cons_ne ids hk, List.idxOf_cons_ne ids hi]
        simp [Ne.symm hi]

section Portions

variable {ids : List Uuid} {lines : List BuildStageLine} {entryId : Uuid}

def takenBefore (ids : List Uuid) (lines : List BuildStageLine) (entryId stageId : Uuid) :
    Decimal :=
  tally (fun l => l.projectEntryId = entryId ∧ l.buildStageId ∈ ids.takeWhile (· ≠ stageId))
    (·.portionPct) lines

theorem portionsOf_perm : (portionsOf ids lines entryId).Perm
    ((lines.filter fun l => l.projectEntryId = entryId).map fun l =>
      (l.buildStageId, l.portionPct)) := List.perm_insertionSort _ _

theorem portionsOf_nodup (ids : List Uuid)
    (hkeys : ((lines.filter fun l => l.projectEntryId = entryId).map (·.buildStageId)).Nodup) :
    ((portionsOf ids lines entryId).map Prod.fst).Nodup := by
  rw [(portionsOf_perm.map Prod.fst).nodup_iff, List.map_map]
  exact hkeys

/-- A line's portion stands behind the portions of the stages before it. -/
theorem portionsOf_split (hlines : ∀ l ∈ lines, l.buildStageId ∈ ids)
    (hkeys : ((lines.filter fun l => l.projectEntryId = entryId).map (·.buildStageId)).Nodup)
    (hl : l ∈ lines) (hentry : l.projectEntryId = entryId) :
    ∃ ps qs, portionsOf ids lines entryId = ps ++ (l.buildStageId, l.portionPct) :: qs ∧
      CumulativeSplit.total ps = takenBefore ids lines entryId l.buildStageId := by
  have hmem : (l.buildStageId, l.portionPct) ∈ portionsOf ids lines entryId := by
    rw [portionsOf_perm.mem_iff, List.mem_map]
    exact ⟨l, List.mem_filter.mpr ⟨hl, by simpa using hentry⟩, rfl⟩
  have hin : ∀ item ∈ portionsOf ids lines entryId, item.1 ∈ ids := by
    intro item hitem
    rw [portionsOf_perm.mem_iff, List.mem_map] at hitem
    obtain ⟨m, hm, rfl⟩ := hitem
    exact hlines m (List.mem_filter.mp hm).1
  have hsorted : (portionsOf ids lines entryId).Pairwise fun a b =>
      ids.idxOf a.1 ≤ ids.idxOf b.1 := by
    have : Std.Total fun a b : Uuid × Decimal => ids.idxOf a.1 ≤ ids.idxOf b.1 :=
      ⟨fun a b => le_total _ _⟩
    have : IsTrans (Uuid × Decimal) fun a b => ids.idxOf a.1 ≤ ids.idxOf b.1 :=
      ⟨fun a b c => le_trans⟩
    exact List.pairwise_insertionSort _ _
  have hnodup := portionsOf_nodup ids hkeys
  obtain ⟨ps, qs, hsplit⟩ := List.append_of_mem hmem
  refine ⟨ps, qs, hsplit, ?_⟩
  have hbefore : takenBefore ids lines entryId l.buildStageId =
      tally (fun item : Uuid × Decimal => item.1 ∈ ids.takeWhile (· ≠ l.buildStageId)) (·.2)
        (portionsOf ids lines entryId) := by
    rw [Tally.tally_perm _ _ portionsOf_perm, Tally.tally_map, Tally.tally_filter]
    rfl
  rw [hsplit] at hsorted hnodup hin
  rw [hbefore, hsplit, Tally.tally_append, Tally.tally_cons]
  rw [List.pairwise_append] at hsorted
  rw [List.map_append, List.nodup_append, List.map_cons, List.nodup_cons] at hnodup
  have hps : ∀ item ∈ ps, item.1 ∈ ids.takeWhile (· ≠ l.buildStageId) := by
    intro item hitem
    rw [mem_takeWhile_ne (hin item (List.mem_append_left _ hitem))]
    have hle := hsorted.2.2 item hitem _ (List.mem_cons_self ..)
    refine lt_of_le_of_ne hle ?_
    intro heq
    have hsame := (List.idxOf_inj (hin item (List.mem_append_left _ hitem))).mp heq
    exact hnodup.2.2 item.1 (List.mem_map_of_mem hitem) _ (List.mem_cons_self ..) hsame
  have hqs : ∀ item ∈ (l.buildStageId, l.portionPct) :: qs,
      item.1 ∉ ids.takeWhile (· ≠ l.buildStageId) := by
    intro item hitem hbad
    rw [mem_takeWhile_ne (hin item (List.mem_append_right _ hitem))] at hbad
    rcases List.mem_cons.mp hitem with rfl | hitem
    · exact lt_irrefl _ hbad
    · have hle := (List.pairwise_cons.mp hsorted.2.1).1 item hitem
      exact absurd hbad (not_lt.mpr hle)
  rw [Tally.tally_all _ _ hps, if_neg (hqs _ (List.mem_cons_self ..)),
    Tally.tally_eq_zero _ _ fun item hitem => hqs item (List.mem_cons_of_mem _ hitem)]
  simp [CumulativeSplit.total]

end Portions

section StageAllocation

variable {db : Db} {workspaceId : Uuid} {build : Build} {project : Project}

def stageIdsOf (db : Db) (workspaceId : Uuid) (build : Build) : List Uuid :=
  (listStages db workspaceId build).map (·.id)

def linesOf (db : Db) (workspaceId : Uuid) (build : Build) : List BuildStageLine :=
  stageLines db workspaceId (stageIdsOf db workspaceId build)

theorem linesOf_stage (h : l ∈ linesOf db workspaceId build) :
    l.buildStageId ∈ stageIdsOf db workspaceId build := by
  simp only [linesOf, stageLines, List.mem_filter, decide_eq_true_eq] at h
  exact h.2.2.1

def slicesOf (db : Db) (workspaceId : Uuid) (build : Build) (project : Project) (entryId : Uuid) :
    List (Uuid × ℤ) :=
  entrySlices db workspaceId build project (stageIdsOf db workspaceId build)
    (linesOf db workspaceId build) entryId

theorem slicesOf_nodup (entryId : Uuid) :
    (Dict.keys (slicesOf db workspaceId build project entryId)).Nodup := by
  unfold slicesOf entrySlices
  split
  next => exact List.nodup_nil
  next =>
    split
    next =>
      split
      next => exact List.nodup_nil
      next => exact allocate_nodup _ _
    next => exact List.nodup_nil

theorem slicesOf_none (h : ∀ l ∈ linesOf db workspaceId build, l.projectEntryId ≠ entryId) :
    slicesOf db workspaceId build project entryId = [] := by
  have hfilter : (linesOf db workspaceId build).filter
      (fun l => l.projectEntryId = entryId) = [] := by
    rw [List.filter_eq_nil_iff]
    simpa using h
  have hempty : portionsOf (stageIdsOf db workspaceId build) (linesOf db workspaceId build)
      entryId = [] := by
    rw [portionsOf, hfilter]
    rfl
  unfold slicesOf entrySlices
  split
  next => rfl
  next =>
    split
    next =>
      split
      next => rfl
      next => rw [hempty]; rfl
    next => rfl

theorem stageAllocation_fold (stageId : Uuid) :
    stageAllocation db workspaceId build project stageId =
      ((((linesOf db workspaceId build).map (·.projectEntryId)).dedup).flatMap fun entryId =>
        (((slicesOf db workspaceId build project entryId).filter fun item =>
          item.1 = stageId).map (·.2)).map fun v => (entryId, v)).foldl
            (fun d item => Dict.put item.1 item.2 d) [] := by
  have hinit : (Dict.find stageId ((stageIdsOf db workspaceId build).map fun id =>
      (id, ([] : List (Uuid × ℤ))))).getD [] = [] := by
    induction stageIdsOf db workspaceId build with
    | nil => rfl
    | cons id ids ih =>
      by_cases hid : id = stageId
      · simp [Dict.find, hid]
      · simpa [Dict.find, hid] using ih
  have hfind := Dict.getD_find_collect (fun s : Uuid × Uuid × ℤ => s.1) []
    (fun s d => Dict.put s.2.1 s.2.2 d)
    ((stageIdsOf db workspaceId build).map fun id => (id, ([] : List (Uuid × ℤ))))
    ((((linesOf db workspaceId build).map (·.projectEntryId)).dedup).flatMap fun entryId =>
      (slicesOf db workspaceId build project entryId).map fun item => (item.1, entryId, item.2))
    stageId
  rw [hinit, List.filter_flatMap] at hfind
  have hloop : ∀ (items : List (Uuid × Uuid × ℤ)) (d : List (Uuid × ℤ)),
      items.foldl (fun d s => Dict.put s.2.1 s.2.2 d) d =
        (items.map fun s => (s.2.1, s.2.2)).foldl (fun d item => Dict.put item.1 item.2 d) d := by
    intro items d
    rw [List.foldl_map]
  rw [hloop, List.map_flatMap] at hfind
  simp only [List.filter_map, List.map_map] at hfind ⊢
  exact hfind

theorem find_stageAllocation (entryId stageId : Uuid) :
    Dict.find entryId (stageAllocation db workspaceId build project stageId) =
      Dict.find stageId (slicesOf db workspaceId build project entryId) := by
  rw [stageAllocation_fold, Dict.find_foldl_put_flatMap _ (List.nodup_dedup _)]
  have hgroup : (((slicesOf db workspaceId build project entryId).filter fun item =>
      item.1 = stageId).map (·.2)).getLast? =
        Dict.find stageId (slicesOf db workspaceId build project entryId) := by
    rw [Dict.filter_key (slicesOf_nodup entryId)]
    cases Dict.find stageId (slicesOf db workspaceId build project entryId) with
    | none => rfl
    | some v => rfl
  rw [hgroup]
  split
  next => simp [Dict.find]
  next hnone =>
    have hslices : slicesOf db workspaceId build project entryId = [] := by
      apply slicesOf_none
      intro l hl hentry
      exact hnone (List.mem_dedup.mpr (List.mem_map.mpr ⟨l, hl, hentry⟩))
    rw [hslices]
    rfl

theorem stageAllocation_nodup (stageId : Uuid) :
    (Dict.keys (stageAllocation db workspaceId build project stageId)).Nodup := by
  rw [stageAllocation_fold]
  exact Dict.nodup_keys_foldl_put List.nodup_nil

theorem find_requiredOfStage (entryId stageId : Uuid) :
    Dict.find entryId (requiredOfStage db workspaceId build project stageId) =
      (Dict.find stageId (slicesOf db workspaceId build project entryId)).filter (0 < ·) := by
  rw [requiredOfStage, Dict.find_filter (fun v : ℤ => 0 < v) (stageAllocation_nodup stageId),
    find_stageAllocation]

theorem linesOf_distinct (workspaceId : Uuid) (build : Build) (h : LinesDistinct db)
    (entryId : Uuid) :
    (((linesOf db workspaceId build).filter fun l => l.projectEntryId = entryId).map
      (·.buildStageId)).Nodup := by
  have hsub : ((linesOf db workspaceId build).filter fun l => l.projectEntryId = entryId).Sublist
      db.buildStageLines := List.filter_sublist.trans List.filter_sublist
  have hpairs := (hsub.map fun l : BuildStageLine => (l.buildStageId, l.projectEntryId)).nodup h
  refine List.Nodup.of_map (fun id => (id, entryId)) ?_
  rw [List.map_map]
  refine (congrArg List.Nodup (List.map_congr_left ?_)).mp hpairs
  intro l hl
  have hentry : l.projectEntryId = entryId := by simpa using (List.mem_filter.mp hl).2
  simp [hentry]

/-- A BOM line of the project that is consumed, and its part. -/
structure BomLine (db : Db) (workspaceId : Uuid) (project : Project) (entryId : Uuid)
    (entry : ProjectEntry) (part : Part) : Prop where
  found : Dict.find entryId (projectEntriesById db workspaceId project) = some entry
  consumable : entry.consumable
  part : entry.partId.bind db.part = some part

theorem slicesOf_eq (h : BomLine db workspaceId project entryId entry part) :
    slicesOf db workspaceId build project entryId =
      allocate (required entry (some part) build.quantity)
        (portionsOf (stageIdsOf db workspaceId build) (linesOf db workspaceId build) entryId) := by
  simp only [slicesOf, entrySlices, h.found, h.part, if_pos h.consumable]

/-- A stage takes the slice between two cumulative ceilings of the whole-build requirement. -/
theorem slice_of_line (hdistinct : LinesDistinct db)
    (h : BomLine db workspaceId project entryId entry part)
    (hnonneg : 0 ≤ required entry (some part) build.quantity)
    (hl : l ∈ linesOf db workspaceId build) (hentry : l.projectEntryId = entryId) :
    let total : Decimal := required entry (some part) build.quantity
    let before := takenBefore (stageIdsOf db workspaceId build) (linesOf db workspaceId build)
      entryId l.buildStageId
    Dict.find l.buildStageId (slicesOf db workspaceId build project entryId) =
      some (share total (before + l.portionPct) - share total before) := by
  intro total before
  obtain ⟨ps, qs, hsplit, hbefore⟩ := portionsOf_split (fun m hm => linesOf_stage hm)
    (linesOf_distinct workspaceId build hdistinct entryId) hl hentry
  have hnodup := portionsOf_nodup (stageIdsOf db workspaceId build)
    (linesOf_distinct workspaceId build hdistinct entryId)
  have htotal : 0 ≤ total := Int.cast_nonneg hnonneg
  rw [slicesOf_eq h, hsplit]
  rw [hsplit] at hnodup
  rw [find_allocate_split htotal hnodup (le_of_lt l.portionRange.1), hbefore]

theorem slice_of_no_line (stageId : Uuid)
    (hdistinct : LinesDistinct db) (h : BomLine db workspaceId project entryId entry part)
    (hnone : ∀ l ∈ linesOf db workspaceId build, l.projectEntryId = entryId →
      l.buildStageId ≠ stageId) :
    Dict.find stageId (slicesOf db workspaceId build project entryId) = none := by
  have hnodup := portionsOf_nodup (stageIdsOf db workspaceId build)
    (linesOf_distinct workspaceId build hdistinct entryId)
  rw [slicesOf_eq h, find_allocate hnodup, Dict.find_eq_none, Dict.keys, allocateFrom_slices,
    CumulativeSplit.keys_slices, (portionsOf_perm.map Prod.fst).mem_iff, List.map_map,
    List.mem_map]
  rintro ⟨l, hl, hid⟩
  have hmem := List.mem_filter.mp hl
  exact hnone l hmem.1 (by simpa using hmem.2) hid

end StageAllocation

end StockManager
