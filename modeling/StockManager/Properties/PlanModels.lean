import StockManager.Effects.PackageNodes
import StockManager.Properties.PlanReimports

/-! # 3D references follow the archive's files

A model path finds the STEP and WRL files of the plan whose stem folds like its own: it is pointed
at one of them, and all of them are linked to the footprint. -/

namespace StockManager.Eda

open Sexpr (Text Node)
open KeyedWrites (assignAll last positionsOf)

variable {footprint : PendingFootprint} {row model : CreatedRow}
  {before after : List (PendingFootprint × Option CreatedRow)}

/-- The rows of the STEP and WRL files of a plan whose stem folds like the path's. -/
def matching (env : Env) (plan : ImportPlan) (files : List (Option CreatedRow)) (path : Text) :
    List CreatedRow :=
  (plan.datafiles.zip files).filterMap fun filed =>
    if filed.1.kind ≠ .spice ∧ env.fold (stemOf filed.1.name) = env.fold (pathStem path) then
      filed.2
    else none

/-- The first STEP row, or the first row where none is STEP. -/
def bestModel (group : List CreatedRow) : Option CreatedRow :=
  (group.find? fun row => row.kind = some .step).or group.head?

def modelReference (group : List CreatedRow) : Option Text :=
  (bestModel group).map fun best => modelPathVar ++ '/' :: best.name

/-- The paths of a footprint after the import: where none finds a file they stay, otherwise each
that finds one is pointed at its best file and the others are dropped. -/
def followedPaths (env : Env) (plan : ImportPlan) (files : List (Option CreatedRow))
    (paths : List Text) : List Text :=
  if ∀ path ∈ paths, matching env plan files path = [] then paths
  else paths.filterMap fun path => modelReference (matching env plan files path)

section Matching

variable {env : Env} {plan : ImportPlan} {files : List (Option CreatedRow)}

theorem matching_eq (path : Text) : matching env plan files path =
    (modelsOf env plan.datafiles files).group env path := by
  rw [matching, modelsOf, ModelsByStem.group, List.filter_filterMap, List.map_filterMap]
  refine List.filterMap_congr fun filed _ => ?_
  obtain ⟨file, row⟩ := filed
  cases row with
  | none => simp
  | some row =>
    by_cases hspice : file.kind = .spice
    · simp [modelOf, hspice]
    · by_cases hstem : env.fold (stemOf file.name) = env.fold (pathStem path)
      · simp [modelOf, hspice, hstem]
      · simp [modelOf, hspice, hstem]

theorem resolveModel_eq (group : List CreatedRow) : resolveModel group = modelReference group := by
  have hrank : (fun row : CreatedRow => decide (row.rank = 0)) =
      fun row => decide (row.kind = some .step) := by
    funext row
    unfold CreatedRow.rank
    by_cases hstep : row.kind = some .step
    · simp [hstep]
    · simp [hstep]
  simp only [resolveModel, hrank, modelReference, bestModel]

theorem modelPaths_rewritten (node : Node) :
    Sexpr.modelPaths (rewriteModels env node (modelsOf env plan.datafiles files)).node =
      followedPaths env plan files (Sexpr.modelPaths node) := by
  rw [followedPaths]
  simp only [matching_eq]
  by_cases hnone : ∀ path ∈ Sexpr.modelPaths node,
      (modelsOf env plan.datafiles files).group env path = []
  · rw [if_pos hnone, rewriteModels_unlinked hnone]
  · rw [if_neg hnone, rewriteModels_linked hnone]
    simp only [Sexpr.modelPaths_rewriteModelPaths, resolveModel_eq]

end Matching

/-- The rows that the entries of a plan are filed as, in their order; an entry that is refused
has none, and a note. -/
structure PlanRows (plan : ImportPlan) (result : ImportResult)
    (files prints : List (Option CreatedRow)) : Prop where
  filed : files.length = plan.datafiles.length ∧ result.datafiles = files.reduceOption
  printed : prints.length = plan.footprints.length ∧ result.footprints = prints.reduceOption
  refusedFile : ∀ file, (file, none) ∈ plan.datafiles.zip files →
    skip file.name skipInvalidEntry ∈ result.skipped
  refusedPrint : ∀ footprint, (footprint, none) ∈ plan.footprints.zip prints →
    skip footprint.val.filename skipInvalidEntry ∈ result.skipped

/-- What a footprint of a plan is filed with. -/
structure ModelsFollow (env : Env) (ctx : Ctx) (plan : ImportPlan) (result : ImportResult)
    (t : State) (files : List (Option CreatedRow)) (footprint : PendingFootprint)
    (row : CreatedRow) : Prop where
  written : ∃ node, Sexpr.entryName node = .ok row.name ∧
    Sexpr.modelPaths node = followedPaths env plan files (Sexpr.modelPaths footprint.val.node) ∧
    row.sha256 = env.sha256 (encode (Sexpr.emit node)) ∧
    (t.files.read (ctx.workspaceId, Model.entryKind .footprint) row.sha256).isSome = true
  linked : ∀ path ∈ Sexpr.modelPaths footprint.val.node, ∀ model ∈ matching env plan files path,
    ∃ position, ⟨ctx.workspaceId, row.id, model.id, position⟩ ∈ t.links
  unmatched : Sexpr.modelPaths footprint.val.node ≠ [] →
    (∀ path ∈ Sexpr.modelPaths footprint.val.node, matching env plan files path = []) →
      skip footprint.val.filename skipModelsUnmatched ∈ result.skipped
  dropped : ∀ path ∈ Sexpr.modelPaths footprint.val.node, matching env plan files path = [] →
    (∃ other ∈ Sexpr.modelPaths footprint.val.node, matching env plan files other ≠ []) →
      skip path skipModelDropped ∈ result.skipped

/-- The links of the footprint's models: each has a place of its own, STEP files first. -/
def ModelsOrdered (env : Env) (ctx : Ctx) (plan : ImportPlan) (t : State)
    (files : List (Option CreatedRow)) (footprint : PendingFootprint) (row : CreatedRow) : Prop :=
  ∀ first ∈ (Sexpr.modelPaths footprint.val.node).flatMap (matching env plan files),
    ∀ second ∈ (Sexpr.modelPaths footprint.val.node).flatMap (matching env plan files), ∀ i j,
    ⟨ctx.workspaceId, row.id, first.id, i⟩ ∈ t.links →
    ⟨ctx.workspaceId, row.id, second.id, j⟩ ∈ t.links →
      (first.id ≠ second.id → i ≠ j) ∧
      (first.kind = some .step → second.kind ≠ some .step → i < j)

section Plans

variable {env : Env} {ctx : Ctx} {plan : ImportPlan} {categoryId : Option Uuid}
  {s t : State} {result : ImportResult} {files prints : List (Option CreatedRow)}

theorem length_filedNames (env : Env) (models : ModelsByStem) (shelf : Shelf)
    (pending : List PendingFootprint) :
    (filedNames env models shelf pending).length = pending.length := by
  induction pending generalizing shelf with
  | nil => rfl
  | cons first rest ih => rw [filedNames, List.length_cons, ih, List.length_cons]

theorem mem_refusals {α : Type} {name : α → Text} {pending : List α}
    {stored : List (Option CreatedRow)} {a : α} (h : (a, none) ∈ pending.zip stored) :
    skip (name a) skipInvalidEntry ∈ refusals name pending stored :=
  List.mem_filterMap.mpr ⟨_, h, rfl⟩

theorem Refiled.rows (h : Refiled env ctx plan categoryId s result t files prints) :
    PlanRows plan result files prints := by
  obtain ⟨symbols, -, hresult⟩ := h.reported
  have hlength : prints.length = plan.footprints.length := by
    have hnames := congrArg List.length h.names
    rwa [List.length_map, length_filedNames] at hnames
  subst hresult
  refine ⟨⟨h.filed.1, rfl⟩, ⟨hlength, rfl⟩, fun file hfile => ?_, fun footprint hprint => ?_⟩
  · exact List.mem_append_left _ (List.mem_append_left _
      (List.mem_append_right _ (mem_refusals hfile)))
  · refine List.mem_append_left _ (List.mem_append_right _ (List.mem_flatMap.mpr ⟨_, hprint, ?_⟩))
    exact List.mem_singleton_self _

theorem mem_found {path : Text} {node : Node}
    (hpath : path ∈ Sexpr.modelPaths node) (hmodel : model ∈ matching env plan files path) :
    model ∈ foundModels env node (modelsOf env plan.datafiles files) := by
  rw [foundModels, KeyedWrites.mem_keepFirst]
  exact List.mem_flatMap.mpr ⟨path, hpath, matching_eq path ▸ hmodel⟩

theorem Refiled.follow (h : Refiled env ctx plan categoryId s result t files prints)
    (hprint : (footprint, some row) ∈ plan.footprints.zip prints) :
    ModelsFollow env ctx plan result t files footprint row := by
  have hnotes : ∀ note ∈ footprintNotes env (modelsOf env plan.datafiles files) footprint
      (some row), note ∈ result.skipped := by
    intro note hnote
    obtain ⟨symbols, -, hresult⟩ := h.reported
    subst hresult
    exact List.mem_append_left _ (List.mem_append_right _
      (List.mem_flatMap.mpr ⟨_, hprint, hnote⟩))
  have hgroup : ∀ path, (modelsOf env plan.datafiles files).group env path =
      matching env plan files path := fun path => (matching_eq path).symm
  refine ⟨?_, ?_, ?_, ?_⟩
  · obtain ⟨node, hname, -, hpaths, hdigest, hfile⟩ := h.written footprint row hprint
    exact ⟨node, hname, hpaths.trans (modelPaths_rewritten _), hdigest, hfile⟩
  · intro path hpath model hmodel
    have hfound := mem_found hpath hmodel
    have hkey : ((ctx.workspaceId, row.id), model.id) ∈ (positionsOf (linkedFootprints env
        ctx.workspaceId (modelsOf env plan.datafiles files) plan.footprints prints)).map (·.1) :=
      KeyedWrites.mem_keys_positionsOf.mpr ⟨_, List.mem_filterMap.mpr ⟨_, hprint, rfl⟩,
        List.mem_map.mpr ⟨model, mem_ordered.mpr hfound, rfl⟩⟩
    obtain ⟨position, hlast⟩ := KeyedWrites.last_isSome.mpr hkey
    have hentry := KeyedWrites.assigned (d := s.links.map linkEntry) hlast
    rw [← h.links] at hentry
    obtain ⟨link, hlink, heq⟩ := List.mem_map.mp hentry
    refine ⟨position, ?_⟩
    have hsame : link = ⟨ctx.workspaceId, row.id, model.id, position⟩ :=
      linkEntry_injective heq
    exact hsame ▸ hlink
  · intro hpaths hnone
    have hunlinked : ∀ path ∈ Sexpr.modelPaths footprint.val.node,
        (modelsOf env plan.datafiles files).group env path = [] :=
      fun path hpath => (hgroup path).trans (hnone path hpath)
    refine hnotes _ ?_
    rw [footprintNotes, rewriteModels_unlinked hunlinked]
    simp [hpaths]
  · intro path hpath hmissing hother
    have hlinked : ¬∀ path ∈ Sexpr.modelPaths footprint.val.node,
        (modelsOf env plan.datafiles files).group env path = [] := by
      intro hnone
      obtain ⟨other, hmem, hfound⟩ := hother
      exact hfound ((hgroup other).symm.trans (hnone other hmem))
    refine hnotes _ ?_
    rw [footprintNotes, rewriteModels_linked hlinked]
    simp only [reduceCtorEq, if_false, Bool.false_eq_true, List.nil_append]
    refine List.mem_map.mpr ⟨path, List.mem_filter.mpr ⟨hpath, ?_⟩, rfl⟩
    rw [hgroup, hmissing]
    rfl

theorem Refiled.position (h : Refiled env ctx plan categoryId s result t files prints)
    {position : ℕ}
    (hsplit : plan.footprints.zip prints = before ++ (footprint, some row) :: after)
    (hlast : ∀ filed ∈ after, ∀ later ∈ filed.2, later.id ≠ row.id)
    (hmodel : model ∈ foundModels env footprint.val.node (modelsOf env plan.datafiles files))
    (hlink : ⟨ctx.workspaceId, row.id, model.id, position⟩ ∈ t.links) :
    last model.id ((ordered (foundModels env footprint.val.node
      (modelsOf env plan.datafiles files))).map (·.id)).zipIdx = some position := by
  let models := modelsOf env plan.datafiles files
  let link : ((PendingFootprint × Option CreatedRow) → Option ((Uuid × Uuid) × List Uuid)) :=
    fun filed => filed.2.map (linkedFootprint env ctx.workspaceId models filed.1)
  have hentries : linkedFootprints env ctx.workspaceId models plan.footprints prints =
      before.filterMap link ++ linkedFootprint env ctx.workspaceId models footprint row ::
        after.filterMap link := by
    rw [linkedFootprints, hsplit, List.filterMap_append, List.filterMap_cons]
    rfl
  have hmember : model.id ∈ (ordered (foundModels env footprint.val.node models)).map (·.id) :=
    List.mem_map.mpr ⟨model, mem_ordered.mpr hmodel, rfl⟩
  have hafter : ∀ entry ∈ after.filterMap link, entry.1 = (ctx.workspaceId, row.id) →
      model.id ∉ entry.2 := by
    intro entry hentry howner
    obtain ⟨filed, hfiled, heq⟩ := List.mem_filterMap.mp hentry
    obtain ⟨later, hlater, rfl⟩ := Option.map_eq_some_iff.mp heq
    exact absurd (Prod.mk.inj howner).2 (hlast filed hfiled later hlater)
  have hfinal : last ((ctx.workspaceId, row.id), model.id) (positionsOf (before.filterMap link ++
      linkedFootprint env ctx.workspaceId models footprint row :: after.filterMap link)) = _ :=
    KeyedWrites.last_positionsOf hmember hafter
  have hmem : (((ctx.workspaceId, row.id), model.id), position) ∈ t.links.map linkEntry :=
    List.mem_map.mpr ⟨_, hlink, rfl⟩
  rw [h.links, hentries] at hmem
  rw [← hfinal]
  rcases KeyedWrites.mem_assignAll hmem with hgiven | ⟨hnone, -⟩
  · exact hgiven
  · have hkeys : model.id ∈ ((ordered (foundModels env footprint.val.node models)).map
        (·.id)).zipIdx.map (·.1) := by
      rw [List.zipIdx_map_fst]
      exact hmember
    obtain ⟨i, hi⟩ := KeyedWrites.last_isSome.mpr hkeys
    rw [← hfinal] at hi
    exact absurd (hi.symm.trans hnone) (by simp)

theorem Refiled.placed (h : Refiled env ctx plan categoryId s result t files prints)
    (hids : UniqueIds t)
    (hsplit : plan.footprints.zip prints = before ++ (footprint, some row) :: after)
    (hlast : ∀ filed ∈ after, ∀ later ∈ filed.2, later.id ≠ row.id) :
    ModelsOrdered env ctx plan t files footprint row := by
  intro first hfirst second hsecond i j hi hj
  let rows := foundModels env footprint.val.node (modelsOf env plan.datafiles files)
  have hfound : ∀ model ∈ (Sexpr.modelPaths footprint.val.node).flatMap (matching env plan files),
      model ∈ rows := by
    intro model hmodel
    obtain ⟨path, hpath, hmatch⟩ := List.mem_flatMap.mp hmodel
    exact mem_found hpath hmatch
  have hfirst' := h.position hsplit hlast (hfound first hfirst) hi
  have hsecond' := h.position hsplit hlast (hfound second hsecond) hj
  constructor
  · rintro hne rfl
    have hget := KeyedWrites.getElem?_of_last hfirst'
    rw [KeyedWrites.getElem?_of_last hsecond'] at hget
    exact hne (Option.some.inj hget).symm
  · intro hstep hother
    have hrank : ∀ model : CreatedRow, model.rank = 0 ↔ model.kind = some .step := by
      intro model
      unfold CreatedRow.rank
      by_cases hkind : model.kind = some .step
      · simp [hkind]
      · simp [hkind]
    rw [ordered, List.map_append] at hfirst' hsecond'
    refine KeyedWrites.last_zipIdx_lt ?_ ?_ hfirst' hsecond'
    · intro hmem
      obtain ⟨model, hmodel, hid⟩ := List.mem_map.mp hmem
      rw [List.mem_filter, decide_eq_true_eq] at hmodel
      have hagain := (h.models.found hmodel.1).eq_of_id hids
        (h.models.found (hfound first hfirst)) hid
      have hkind : model.again.kind = first.again.kind := congrArg CreatedRow.kind hagain
      exact hmodel.2 ((hrank model).mpr (hkind.trans hstep))
    · refine List.mem_map_of_mem (List.mem_filter.mpr ⟨hfound second hsecond, ?_⟩)
      rw [decide_eq_true_eq, ne_eq, hrank]
      exact hother

/-- After an import each footprint's paths follow the plan's files, all of which are linked. -/
theorem importPlan_follows (hids : UniqueIds s)
    (h : importPlan env ctx plan categoryId s = .ok (result, t)) :
    ∃ files prints, PlanRows plan result files prints ∧
      (∀ file row, (file, some row) ∈ plan.datafiles.zip files →
        FiledAs env ctx.workspaceId file row t) ∧
      ∀ before footprint row after,
        plan.footprints.zip prints = before ++ (footprint, some row) :: after →
          ModelsFollow env ctx plan result t files footprint row ∧
          ((∀ filed ∈ after, ∀ later ∈ filed.2, later.id ≠ row.id) →
            ModelsOrdered env ctx plan t files footprint row) := by
  obtain ⟨files, prints, hrefiled⟩ := importPlan_refiled h
  refine ⟨files, prints, hrefiled.rows, hrefiled.filed.2,
    fun before footprint row after hsplit => ?_⟩
  have hprint : (footprint, some row) ∈ plan.footprints.zip prints := by simp [hsplit]
  exact ⟨hrefiled.follow hprint, hrefiled.placed (hids.imported h) hsplit⟩

end Plans

/-- A footprint that names one model, in a plan with a STEP and a WRL file of its stem. -/
theorem importPlan_follows_sample : ∃ result t files prints,
    importPlan asciiArchiveEnv.toEnv (sampleCtx 40) (modeledPlan [stepFile, wrlFile]) none
      sampleState = .ok (result, t) ∧
    PlanRows (modeledPlan [stepFile, wrlFile]) result files prints ∧
    t.links.map (·.position) = [0, 1] := by
  have hpositions : positionsAgain (modeledPlan [stepFile, wrlFile]) =
      some ([0, 1], [0, 1]) := by decide +kernel
  obtain ⟨⟨result, t⟩, hfirst, hagain⟩ := Option.bind_eq_some_iff.mp hpositions
  obtain ⟨_, -, hlists⟩ := Option.bind_eq_some_iff.mp hagain
  have himport := Outcome.toOption_eq_some.mp hfirst
  have hids : UniqueIds sampleState := fun model => by cases model <;> exact List.nodup_nil
  obtain ⟨files, prints, hrows, -, -⟩ := importPlan_follows hids himport
  exact ⟨result, t, files, prints, himport, hrows, (Prod.mk.inj (Option.some.inj hlists)).1⟩

end StockManager.Eda
