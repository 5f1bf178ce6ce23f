import StockManager.Effects.PlanSlots
import StockManager.Library.KeyedWrites

/-! # The notes an import adds

A plan is filed without a note where every entry of it is: no file fails its check, no footprint
names a model that the archive has not, and nothing is refused under a name. -/

namespace StockManager.Eda

open Sexpr (Text Node)

variable {node : Node} {result after : ImportResult} {models : ModelsByStem}

def modelKey (model : Text × CreatedRow) : Text × Text × Option DatafileKind :=
  (model.1, model.2.name, model.2.kind)

section Models

variable {env : Env} {models models' : ModelsByStem}

theorem group_keys (h : models.map modelKey = models'.map modelKey) (path : Text) :
    (models.group env path).map (fun row => (row.name, row.kind)) =
      (models'.group env path).map fun row => (row.name, row.kind) := by
  have hkeys : ∀ models : ModelsByStem, (models.group env path).map (fun row =>
      (row.name, row.kind)) =
        ((models.map modelKey).filter fun key => key.1 = env.fold (pathStem path)).map (·.2) := by
    intro models
    rw [ModelsByStem.group, List.filter_map, List.map_map, List.map_map]
    rfl
  rw [hkeys, hkeys, h]

theorem group_nil_iff (h : models.map modelKey = models'.map modelKey) (path : Text) :
    models.group env path = [] ↔ models'.group env path = [] := by
  rw [← List.map_eq_nil_iff, group_keys h path, List.map_eq_nil_iff]

theorem resolveModel_congr {group group' : List CreatedRow}
    (h : group.map (fun row => (row.name, row.kind)) =
      group'.map fun row => (row.name, row.kind)) : resolveModel group = resolveModel group' := by
  have hkeys : ∀ group : List CreatedRow, resolveModel group =
      let keys := group.map fun row => (row.name, row.kind)
      ((keys.find? fun key => key.2 = some .step).or keys.head?).map fun best =>
        modelPathVar ++ '/' :: best.1 := by
    intro group
    have hrank : (fun row : CreatedRow => decide (row.rank = 0)) =
        fun row => decide (row.kind = some .step) := by
      funext row
      unfold CreatedRow.rank
      by_cases hstep : row.kind = some .step
      · simp [hstep]
      · simp [hstep]
    simp only [resolveModel, hrank, List.find?_map, List.head?_map]
    rw [← Option.map_or, Option.map_map]
    rfl
  rw [hkeys, hkeys, h]

/-- The rows that the footprint's paths find, each once. -/
def foundModels (env : Env) (node : Node) (models : ModelsByStem) : List CreatedRow :=
  KeyedWrites.keepFirst ((Sexpr.modelPaths node).flatMap (models.group env))

theorem foundModels_nil_iff : foundModels env node models = [] ↔
    ∀ path ∈ Sexpr.modelPaths node, models.group env path = [] := by
  rw [← List.flatMap_eq_nil_iff, List.eq_nil_iff_forall_not_mem, List.eq_nil_iff_forall_not_mem]
  exact forall_congr' fun row => not_congr KeyedWrites.mem_keepFirst

theorem rewriteModels_unlinked (h : ∀ path ∈ Sexpr.modelPaths node, models.group env path = []) :
    rewriteModels env node models = ⟨node, [], Sexpr.modelPaths node ≠ [], []⟩ :=
  if_pos (foundModels_nil_iff.mpr h)

theorem rewriteModels_linked (h : ¬∀ path ∈ Sexpr.modelPaths node, models.group env path = []) :
    rewriteModels env node models =
      ⟨Sexpr.rewriteModelPaths node fun path => resolveModel (models.group env path),
        foundModels env node models, false,
        (Sexpr.modelPaths node).filter fun path => models.group env path = []⟩ :=
  if_neg fun hnil => h (foundModels_nil_iff.mp hnil)

theorem rewriteModels_congr (h : models.map modelKey = models'.map modelKey) (node : Node) :
    (rewriteModels env node models).node = (rewriteModels env node models').node := by
  have hresolve : (fun path => resolveModel (models.group env path)) =
      fun path => resolveModel (models'.group env path) :=
    funext fun path => resolveModel_congr (group_keys h path)
  have hgroups : (∀ path ∈ Sexpr.modelPaths node, models.group env path = []) ↔
      ∀ path ∈ Sexpr.modelPaths node, models'.group env path = [] :=
    forall_congr' fun path => imp_congr_right fun _ => group_nil_iff h path
  by_cases hnone : ∀ path ∈ Sexpr.modelPaths node, models.group env path = []
  · rw [rewriteModels_unlinked hnone, rewriteModels_unlinked (hgroups.mp hnone)]
  · rw [rewriteModels_linked hnone, rewriteModels_linked fun h => hnone (hgroups.mpr h), hresolve]

theorem rewriteModels_noted (node : Node) (models : ModelsByStem) :
    ((rewriteModels env node models).unmatchedOnly = false ∧
      (rewriteModels env node models).dropped = []) ↔
        ∀ path ∈ Sexpr.modelPaths node, models.group env path ≠ [] := by
  by_cases hnone : ∀ path ∈ Sexpr.modelPaths node, models.group env path = []
  · rw [rewriteModels_unlinked hnone]
    simp only [and_true, decide_eq_false_iff_not, not_not]
    constructor
    · intro hempty path hpath
      rw [hempty] at hpath
      cases hpath
    · intro hall
      rw [List.eq_nil_iff_forall_not_mem]
      exact fun path hpath => hall path hpath (hnone path hpath)
  · rw [rewriteModels_linked hnone]
    simp only [true_and, List.filter_eq_nil_iff, decide_eq_true_eq]

end Models

section Plans

variable {env : Env} {ctx : Ctx} {categoryId : Option Uuid} {s t : State}

/-- How an entry is rendered under a name, its own or another. -/
def renderEntry (env : Env) (model : Model) (name : Text) (node : Node) (candidate : Text) :
    Except EdaError ByteArray := do
  let renamed ← if candidate = name then .ok node
    else (Sexpr.rename node candidate).mapError .sexpr
  canonicalEntryBytes env renamed model.entryKind candidate

/-- The entry is refused under one of its names. -/
def EntryRefused (env : Env) (s : State) (workspaceId : Uuid) (model : Model) (name : Text)
    (node : Node) : Prop :=
  Refused env (shelfOf s workspaceId model none) (renderEntry env model name node)
    (candidateNames name (model = .datafile))

theorem importEntry_refused {model : Model} {name : Text} {stored : Option (Entry × Bool)}
    (h : importEntry env ctx model categoryId name node s = .ok (stored, t)) :
    stored = none ↔ EntryRefused env s ctx.workspaceId model name node :=
  storeCandidates_refused h

theorem entryRefused_congr {model : Model} {name : Text} {workspaceId : Uuid}
    (h : t.rows model = s.rows model) :
    EntryRefused env t workspaceId model name node ↔
      EntryRefused env s workspaceId model name node := by
  have hshelf : shelfOf t workspaceId model none = shelfOf s workspaceId model none := by
    funext candidate
    rw [shelfOf, shelfOf, activeByName, activeByName, h]
  rw [EntryRefused, EntryRefused, hshelf]

theorem importFootprint_skipped {pending : PendingFootprint}
    (h : importFootprint env ctx categoryId models pending result s = .ok (after, t)) :
    after.skipped = [] ↔ result.skipped = [] ∧
      (∀ path ∈ Sexpr.modelPaths pending.val.node, models.group env path ≠ []) ∧
      ¬EntryRefused env s ctx.workspaceId .footprint pending.val.name
        (rewriteModels env pending.val.node models).node := by
  obtain ⟨⟨stored, middle⟩, hstored, h⟩ := Outcome.bind_ok.mp h
  rw [← importEntry_refused hstored, ← rewriteModels_noted]
  cases stored with
  | none =>
    obtain ⟨rfl, -⟩ := Prod.mk.inj (Outcome.pure_ok.mp h)
    exact iff_of_false (List.append_ne_nil_of_right_ne_nil _ (List.cons_ne_nil _ _))
      fun hall => hall.2.2 rfl
  | some stored =>
    obtain ⟨linked, -, hret⟩ := Outcome.bind_ok.mp h
    obtain ⟨rfl, -⟩ := Prod.mk.inj (Outcome.pure_ok.mp hret)
    simp only [List.append_eq_nil_iff, List.map_eq_nil_iff, reduceCtorEq,
      not_false_eq_true, and_true, and_assoc]
    refine and_congr_right fun _ => and_congr_left fun _ => ?_
    cases (rewriteModels env pending.val.node models).unmatchedOnly <;> simp

theorem importFootprints_skipped {pending : List PendingFootprint} (hone : pending.length ≤ 1)
    (h : importFootprints env ctx categoryId models pending result s = .ok (after, t)) :
    after.skipped = [] ↔ result.skipped = [] ∧ ∀ footprint ∈ pending,
      (∀ path ∈ Sexpr.modelPaths footprint.val.node, models.group env path ≠ []) ∧
      ¬EntryRefused env s ctx.workspaceId .footprint footprint.val.name
        (rewriteModels env footprint.val.node models).node := by
  match pending, hone with
  | [], _ =>
    cases h
    simp
  | [footprint], _ =>
    obtain ⟨⟨result', middle⟩, hfirst, h⟩ := Outcome.bind_ok.mp h
    obtain ⟨rfl, -⟩ := Prod.mk.inj (Except.ok.inj h)
    rw [importFootprint_skipped hfirst, List.forall_mem_singleton]
    rfl

theorem importSymbols_skipped {pending : List PendingSymbol} (hone : pending.length ≤ 1)
    (h : importSymbols env ctx categoryId pending result s = .ok (after, t)) :
    after.skipped = [] ↔ result.skipped = [] ∧ ∀ symbol ∈ pending,
      ¬EntryRefused env s ctx.workspaceId .symbol symbol.val.name symbol.val.node := by
  match pending, hone with
  | [], _ =>
    cases h
    simp
  | [symbol], _ =>
    obtain ⟨⟨stored, middle⟩, hstored, h⟩ := Outcome.bind_ok.mp h
    obtain ⟨rfl, -⟩ := Prod.mk.inj (Except.ok.inj h)
    have hchild := importEntry_refused hstored
    have hrefused : stored = none ↔
        EntryRefused env s ctx.workspaceId .symbol symbol.val.name symbol.val.node := hchild
    rw [List.forall_mem_singleton, ← hrefused]
    cases stored with
    | none =>
      exact iff_of_false (List.append_ne_nil_of_right_ne_nil _ (List.cons_ne_nil _ _))
        fun hall => hall.2 rfl
    | some stored => simp

theorem importDatafiles_stems {pending : List PendingDatafile}
    {models models' : ModelsByStem} (hvalid : ∀ file ∈ pending, file.Valid)
    (h : importDatafiles env ctx pending result models s = .ok (after, models', t)) :
    models'.map (·.1) = models.map (·.1) ++
      (pending.filter (·.kind ≠ .spice)).map fun file => env.fold (stemOf file.name) := by
  induction pending generalizing ctx result models s with
  | nil =>
    cases h
    simp
  | cons file rest ih =>
    rw [List.forall_mem_cons] at hvalid
    rw [importDatafiles] at h
    obtain ⟨⟨stored, middle⟩, hfirst, h⟩ := Outcome.bind_ok.mp h
    obtain ⟨hnone, -⟩ := importDatafile_slot hfirst
    cases stored with
    | none => exact absurd hvalid.1 (hnone.mp rfl)
    | some row =>
      rw [ih hvalid.2 h]
      by_cases hspice : file.kind = .spice
      · simp [hspice]
      · simp [hspice]

theorem group_ne_nil_iff {path : Text} :
    models.group env path ≠ [] ↔ env.fold (pathStem path) ∈ models.map (·.1) := by
  rw [ModelsByStem.group, Ne, List.map_eq_nil_iff, List.filter_eq_nil_iff, List.mem_map]
  simp only [decide_eq_true_eq, not_forall, not_not, exists_prop]

/-- Nothing of a plan of at most one symbol and one footprint is left out. -/
structure FiledWhole (env : Env) (workspaceId : Uuid) (s : State) (plan : ImportPlan) : Prop where
  noted : plan.skipped = []
  datafiles : ∀ file ∈ plan.datafiles, file.Valid
  paths : ∀ footprint ∈ plan.footprints, ∀ path ∈ Sexpr.modelPaths footprint.val.node,
    ∃ file ∈ plan.datafiles, file.kind ≠ .spice ∧
      env.fold (stemOf file.name) = env.fold (pathStem path)
  footprints : ∀ footprint ∈ plan.footprints,
    ¬EntryRefused env s workspaceId .footprint footprint.val.name
      (rewriteModels env footprint.val.node
        (filedModels env (fileShelves s workspaceId) plan.datafiles)).node
  symbols : ∀ symbol ∈ plan.symbols,
    ¬EntryRefused env s workspaceId .symbol symbol.val.name symbol.val.node

/-- The import of one part leaves no note exactly when the plan is filed whole. -/
theorem importPlan_skipped {plan : ImportPlan}
    (hfootprints : plan.footprints.length ≤ 1) (hsymbols : plan.symbols.length ≤ 1)
    (h : importPlan env ctx plan categoryId s = .ok (result, t)) :
    result.skipped = [] ↔ FiledWhole env ctx.workspaceId s plan := by
  obtain ⟨_, -, h⟩ := Outcome.bind_ok.mp h
  obtain ⟨⟨result₁, models, s₁⟩, hfiles, h⟩ := Outcome.bind_ok.mp h
  obtain ⟨⟨result₂, s₂⟩, hprints, h⟩ := Outcome.bind_ok.mp h
  rw [importSymbols_skipped hsymbols h, importFootprints_skipped hfootprints hprints,
    importDatafiles_skipped hfiles]
  by_cases hvalid : ∀ file ∈ plan.datafiles, file.Valid
  · have hkeys : models.map modelKey =
        (filedModels env (fileShelves s ctx.workspaceId) plan.datafiles).map modelKey := by
      have hslots : models.map slotOf =
          filedModels env (fileShelves s ctx.workspaceId) plan.datafiles :=
        importDatafiles_filed hfiles
      rw [← hslots, List.map_map]
      rfl
    have hstems := importDatafiles_stems hvalid hfiles
    have hpath : ∀ path, models.group env path ≠ [] ↔ ∃ file ∈ plan.datafiles,
        file.kind ≠ .spice ∧ env.fold (stemOf file.name) = env.fold (pathStem path) := by
      intro path
      rw [group_ne_nil_iff, hstems, List.map_nil, List.nil_append, List.mem_map]
      simp only [List.mem_filter, decide_eq_true_eq, and_assoc]
    have hprint : ∀ footprint : PendingFootprint,
        EntryRefused env s₁ ctx.workspaceId .footprint footprint.val.name
            (rewriteModels env footprint.val.node models).node ↔
          EntryRefused env s ctx.workspaceId .footprint footprint.val.name
            (rewriteModels env footprint.val.node
              (filedModels env (fileShelves s ctx.workspaceId) plan.datafiles)).node := by
      intro footprint
      rw [rewriteModels_congr hkeys]
      exact entryRefused_congr (importDatafiles_rows (by decide) hfiles)
    have hsymbol : ∀ symbol : PendingSymbol,
        EntryRefused env s₂ ctx.workspaceId .symbol symbol.val.name symbol.val.node ↔
          EntryRefused env s ctx.workspaceId .symbol symbol.val.name symbol.val.node :=
      fun symbol => entryRefused_congr (((importFootprints_frame hprints).2 .symbol (by decide)).trans
        (importDatafiles_rows (by decide) hfiles))
    constructor
    · rintro ⟨⟨⟨hnoted, -⟩, hall⟩, hrest⟩
      exact ⟨hnoted, hvalid, fun footprint hmem path hmodel =>
          (hpath path).mp ((hall footprint hmem).1 path hmodel),
        fun footprint hmem hrefused => (hall footprint hmem).2 ((hprint footprint).mpr hrefused),
        fun symbol hmem hrefused => hrest symbol hmem ((hsymbol symbol).mpr hrefused)⟩
    · intro hwhole
      refine ⟨⟨⟨hwhole.noted, hvalid⟩, fun footprint hmem => ⟨fun path hmodel => ?_, ?_⟩⟩, ?_⟩
      · exact (hpath path).mpr (hwhole.paths footprint hmem path hmodel)
      · exact fun hrefused => hwhole.footprints footprint hmem ((hprint footprint).mp hrefused)
      · exact fun symbol hmem hrefused =>
          hwhole.symbols symbol hmem ((hsymbol symbol).mp hrefused)
  · exact iff_of_false (fun hall => hvalid hall.1.1.2) fun hwhole => hvalid hwhole.datafiles

end Plans

end StockManager.Eda

/-! ## The links of imported footprints

A link is the position of a model under its footprint: linking assigns it, and the last position
given stands. -/

namespace StockManager.Eda

open Sexpr (Text Node)
open KeyedWrites (assign assignAll last keepFirst positionsOf)

abbrev LinkKey : Type := (Uuid × Uuid) × Uuid

def linkEntry (link : FootprintModel) : LinkKey × ℕ :=
  (((link.workspaceId, link.footprintId), link.datafileId), link.position)

theorem linkEntry_injective : Function.Injective linkEntry := by
  intro a b h
  obtain ⟨hkey, hposition⟩ := Prod.mk.inj h
  obtain ⟨howner, hdatafile⟩ := Prod.mk.inj hkey
  obtain ⟨hworkspace, hfootprint⟩ := Prod.mk.inj howner
  cases a
  cases b
  simp only at hworkspace hfootprint hdatafile hposition
  subst hworkspace hfootprint hdatafile hposition
  rfl

/-- STEP files come first. -/
def ordered (models : List CreatedRow) : List CreatedRow :=
  models.filter (·.rank = 0) ++ models.filter (·.rank ≠ 0)

theorem mem_ordered {models : List CreatedRow} {row : CreatedRow} :
    row ∈ ordered models ↔ row ∈ models := by
  simp only [ordered, List.mem_append, List.mem_filter, decide_eq_true_eq]
  exact ⟨fun h => h.elim And.left And.left, fun h => (em _).elim (fun hrank => .inl ⟨h, hrank⟩)
    fun hrank => .inr ⟨h, hrank⟩⟩

def linkOps (workspaceId footprintId : Uuid) (models : List CreatedRow) : List (LinkKey × ℕ) :=
  (ordered models).zipIdx.map fun placed => (((workspaceId, footprintId), placed.1.id), placed.2)

theorem linkOps_eq (workspaceId footprintId : Uuid) (models : List CreatedRow) :
    linkOps workspaceId footprintId models =
      positionsOf [((workspaceId, footprintId), (ordered models).map (·.id))] := by
  rw [positionsOf, List.flatMap_singleton, List.zipIdx_map, List.map_map]
  rfl

section Linking

variable {env : Env} {ctx ctx' : Ctx} {s t t' : State} {footprintId : Uuid}

def Linkable (ctx : Ctx) (s : State) (footprintId datafileId : Uuid) : Prop :=
  (∃ footprint, getEntry ctx s .footprint footprintId = .ok footprint) ∧
    ∃ datafile, getEntry ctx s .datafile datafileId = .ok datafile ∧
      (datafile.kind = some .step ∨ datafile.kind = some .wrl)

theorem Linkable.grown {datafileId : Uuid} (hworkspace : ctx'.workspaceId = ctx.workspaceId)
    (h : Linkable ctx s footprintId datafileId) (hgrown : Grown s t) :
    Linkable ctx' t footprintId datafileId := by
  obtain ⟨⟨footprint, hfootprint⟩, datafile, hdatafile, hkind⟩ := h
  exact ⟨⟨footprint, getEntry_grown hworkspace hgrown hfootprint⟩, datafile,
    getEntry_grown hworkspace hgrown hdatafile, hkind⟩

def setLink (key : LinkKey) (position : ℕ) (links : List FootprintModel) : List FootprintModel :=
  if links.any fun l => (linkEntry l).1 = key then
    links.map fun l => if (linkEntry l).1 = key then { l with position := position } else l
  else links ++ [⟨key.1.1, key.1.2, key.2, position⟩]

theorem setLink_entries (key : LinkKey) (position : ℕ) (links : List FootprintModel) :
    (setLink key position links).map linkEntry = assign (links.map linkEntry) (key, position) := by
  have hany : ((links.map linkEntry).any fun e => e.1 = (key, position).1) =
      links.any fun l => (linkEntry l).1 = key := List.any_map
  rw [setLink, assign, hany]
  split
  · rw [List.map_map, List.map_map]
    refine List.map_congr_left fun l _ => ?_
    by_cases hkey : (linkEntry l).1 = key
    · simp only [Function.comp, hkey, if_true]
      rw [← hkey]
      rfl
    · simp only [Function.comp, hkey, if_false]
  · rw [List.map_append]
    rfl

theorem linkEntry_key {l : FootprintModel} {workspaceId footprintId datafileId : Uuid} :
    (linkEntry l).1 = ((workspaceId, footprintId), datafileId) ↔
      l.workspaceId = workspaceId ∧ l.footprintId = footprintId ∧ l.datafileId = datafileId := by
  rw [linkEntry, Prod.mk.injEq, Prod.mk.injEq, and_assoc]

theorem linkFootprintModel_ok {datafileId : Uuid} {position : ℕ} :
    (∃ footprint, linkFootprintModel ctx footprintId datafileId position s = .ok (footprint, t)) ↔
      Linkable ctx s footprintId datafileId ∧ t = { s with
        links := setLink ((ctx.workspaceId, footprintId), datafileId) position s.links } := by
  have hsame : (fun l : FootprintModel => decide (l.workspaceId = ctx.workspaceId ∧
      l.footprintId = footprintId ∧ l.datafileId = datafileId)) =
        fun l => decide ((linkEntry l).1 = ((ctx.workspaceId, footprintId), datafileId)) :=
    funext fun l => decide_eq_decide.mpr linkEntry_key.symm
  have hset : ∀ links : List FootprintModel,
      (if (links.any fun l => decide (l.workspaceId = ctx.workspaceId ∧
          l.footprintId = footprintId ∧ l.datafileId = datafileId)) = true then
        links.map fun l => if decide (l.workspaceId = ctx.workspaceId ∧
          l.footprintId = footprintId ∧ l.datafileId = datafileId) = true then
            { l with position := position } else l
        else links ++ [⟨ctx.workspaceId, footprintId, datafileId, position⟩]) =
      setLink ((ctx.workspaceId, footprintId), datafileId) position links := by
    intro links
    rw [hsame, setLink]
    refine if_congr Iff.rfl (List.map_congr_left fun l _ => ?_) rfl
    exact if_congr (decide_eq_true_iff.trans linkEntry_key.symm) rfl rfl
  constructor
  · rintro ⟨footprint, h⟩
    obtain ⟨footprint, hfootprint, h⟩ := Outcome.bind_ok.mp h
    obtain ⟨datafile, hdatafile, h⟩ := Outcome.bind_ok.mp h
    obtain ⟨hkind, h⟩ := Outcome.check_bind_ok.mp h
    obtain ⟨-, rfl⟩ := Prod.mk.inj (Outcome.pure_ok.mp h)
    obtain ⟨-, hid, -⟩ := getEntry_ok hfootprint
    obtain ⟨-, hid', -⟩ := getEntry_ok hdatafile
    refine ⟨⟨⟨footprint, hfootprint⟩, datafile, hdatafile, hkind⟩, ?_⟩
    rw [← hset s.links, hid, hid']
  · rintro ⟨⟨⟨footprint, hfootprint⟩, datafile, hdatafile, hkind⟩, rfl⟩
    obtain ⟨-, hid, -⟩ := getEntry_ok hfootprint
    obtain ⟨-, hid', -⟩ := getEntry_ok hdatafile
    refine ⟨footprint, Outcome.bind_ok.mpr ⟨footprint, hfootprint, Outcome.bind_ok.mpr
      ⟨datafile, hdatafile, Outcome.check_bind_ok.mpr ⟨hkind, ?_⟩⟩⟩⟩
    rw [← hset s.links, hid, hid']
    rfl

theorem linkAll_ok {link : State → CreatedRow × ℕ → Except EdaError State}
    (hlink : ∀ s placed t, link s placed = .ok t ↔
      ∃ footprint, linkFootprintModel ctx footprintId placed.1.id placed.2 s = .ok (footprint, t))
    (placed : List (CreatedRow × ℕ)) : placed.foldlM link s = .ok t ↔
      (∀ entry ∈ placed, Linkable ctx s footprintId entry.1.id) ∧
        t = { s with links := t.links } ∧ t.links.map linkEntry =
          assignAll (s.links.map linkEntry) (placed.map fun entry =>
            (((ctx.workspaceId, footprintId), entry.1.id), entry.2)) := by
  induction placed generalizing s with
  | nil =>
    rw [Outcome.foldlM_nil_ok]
    constructor
    · rintro rfl
      exact ⟨fun _ h => absurd h List.not_mem_nil, rfl, rfl⟩
    · rintro ⟨-, ht, hentries⟩
      have hlinks := List.map_injective_iff.mpr linkEntry_injective hentries
      rw [ht, hlinks]
  | cons entry rest ih =>
    rw [Outcome.foldlM_cons_ok, List.forall_mem_cons]
    constructor
    · rintro ⟨middle, hfirst, hrest⟩
      obtain ⟨hthis, rfl⟩ := linkFootprintModel_ok.mp ((hlink _ _ _).mp hfirst)
      obtain ⟨hall, ht, hentries⟩ := ih.mp hrest
      refine ⟨⟨hthis, hall⟩, ht, hentries.trans ?_⟩
      rw [setLink_entries]
      rfl
    · rintro ⟨⟨hthis, hall⟩, ht, hentries⟩
      refine ⟨_, (hlink _ _ _).mpr (linkFootprintModel_ok.mpr ⟨hthis, rfl⟩),
        ih.mpr ⟨hall, ht, ?_⟩⟩
      rw [setLink_entries]
      exact hentries

theorem linkModels_ok {models : List CreatedRow} : linkModels ctx footprintId models s = .ok t ↔
    (∀ row ∈ models, Linkable ctx s footprintId row.id) ∧
      t = { s with links := t.links } ∧ t.links.map linkEntry =
        assignAll (s.links.map linkEntry) (linkOps ctx.workspaceId footprintId models) := by
  have hrows : (∀ entry ∈ (ordered models).zipIdx, Linkable ctx s footprintId entry.1.id) ↔
      ∀ row ∈ models, Linkable ctx s footprintId row.id := by
    rw [← List.forall_mem_map (P := fun row : CreatedRow => Linkable ctx s footprintId row.id),
      List.zipIdx_map_fst]
    exact forall_congr' fun row => imp_congr_left mem_ordered
  rw [← hrows]
  refine linkAll_ok (fun s placed t => ?_) (ordered models).zipIdx
  constructor
  · intro h
    obtain ⟨⟨footprint, later⟩, hlinked, hret⟩ := Outcome.bind_ok.mp h
    exact ⟨footprint, Outcome.pure_ok.mp hret ▸ hlinked⟩
  · rintro ⟨footprint, hlinked⟩
    exact Outcome.bind_ok.mpr ⟨_, hlinked, rfl⟩

end Linking

end StockManager.Eda
