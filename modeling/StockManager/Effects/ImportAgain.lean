import StockManager.Effects.ImportLinks

/-! # A plan that is imported again

The second import finds every row of the first one, in whatever later state of the library, and
gives the links positions of its own. -/

namespace StockManager.Eda

open Sexpr (Text Node)
open KeyedWrites (assignAll last keepFirst positionsOf)

variable {result after : ImportResult} {workspaceId : Uuid} {model : Model}
  {kind : Option DatafileKind} {pending : PendingFootprint}
variable {row : CreatedRow} {storageKind : StorageKind} {render : Text → Except EdaError ByteArray}
  {names : List Text} {stored : Entry × Bool}

section Models

variable {env : Env} {models : ModelsByStem}

theorem again_keys (models : ModelsByStem) :
    (ModelsByStem.again models).map modelKey = models.map modelKey := by
  rw [ModelsByStem.again, List.map_map]
  rfl

theorem group_again (path : Text) :
    (ModelsByStem.again models).group env path = (models.group env path).map CreatedRow.again := by
  rw [ModelsByStem.group, ModelsByStem.group, ModelsByStem.again, List.filter_map, List.map_map,
    List.map_map]
  rfl

theorem foundModels_again (node : Node) : foundModels env node (ModelsByStem.again models) =
    keepFirst ((foundModels env node models).map CreatedRow.again) := by
  have hgroups : (Sexpr.modelPaths node).flatMap ((ModelsByStem.again models).group env) =
      ((Sexpr.modelPaths node).flatMap (models.group env)).map CreatedRow.again := by
    rw [List.map_flatMap]
    exact List.flatMap_congr fun path _ => group_again path
  rw [foundModels, foundModels, hgroups, KeyedWrites.keepFirst_map_keepFirst]

theorem rewriteModels_found (node : Node) (models : ModelsByStem) :
    (rewriteModels env node models).linked = foundModels env node models := by
  by_cases hnone : ∀ path ∈ Sexpr.modelPaths node, models.group env path = []
  · rw [rewriteModels_unlinked hnone, foundModels_nil_iff.mpr hnone]
  · rw [rewriteModels_linked hnone]

theorem rewriteModels_again (node : Node) :
    (rewriteModels env node (ModelsByStem.again models)).node = (rewriteModels env node models).node ∧
    (rewriteModels env node (ModelsByStem.again models)).unmatchedOnly =
      (rewriteModels env node models).unmatchedOnly ∧
    (rewriteModels env node (ModelsByStem.again models)).dropped =
      (rewriteModels env node models).dropped := by
  refine ⟨rewriteModels_congr (again_keys models) node, ?_⟩
  have hgroups : ∀ path, (ModelsByStem.again models).group env path = [] ↔
      models.group env path = [] := fun path => group_nil_iff (again_keys models) path
  by_cases hnone : ∀ path ∈ Sexpr.modelPaths node, models.group env path = []
  · rw [rewriteModels_unlinked hnone, rewriteModels_unlinked fun path hpath =>
      (hgroups path).mpr (hnone path hpath)]
    exact ⟨rfl, rfl⟩
  · rw [rewriteModels_linked hnone, rewriteModels_linked fun h => hnone fun path hpath =>
      (hgroups path).mp (h path hpath)]
    exact ⟨rfl, List.filter_congr fun path _ => decide_eq_decide.mpr (hgroups path)⟩

end Models

theorem modelPath?_renameUnit (oldName newName : Text) (child : Sexpr.Item) :
    Sexpr.modelPath? (Sexpr.renameUnit oldName newName child) = Sexpr.modelPath? child := by
  cases child with
  | atom a => rfl
  | node members =>
    cases members with
    | nil => rfl
    | cons root rest =>
      cases rest with
      | nil => rfl
      | cons name rest =>
        by_cases hroot : Sexpr.head (root :: name :: rest) = some Sexpr.symbolRoot
        · have hother : ∀ members, Sexpr.head (root :: members) ≠ some "model".toList := by
            intro members hmodel
            have hsymbol : Sexpr.head (root :: members) = some Sexpr.symbolRoot := hroot
            rw [hsymbol] at hmodel
            exact absurd (Option.some.inj hmodel) (by decide)
          rw [Sexpr.renameUnit, if_pos hroot]
          cases name.text?.bind (Sexpr.afterPrefix (oldName ++ ['_'])) with
          | none => rfl
          | some suffix =>
            simp only [Sexpr.modelPath?]
            rw [if_neg (hother _), if_neg (hother _)]
        · rw [Sexpr.renameUnit, if_neg hroot]

theorem modelPaths_rename {node renamed : Node} {newName : Text}
    (h : Sexpr.rename node newName = .ok renamed) :
    Sexpr.modelPaths renamed = Sexpr.modelPaths node := by
  obtain ⟨first, a, rest, rfl, rfl⟩ := Sexpr.rename_ok h
  have hrest : (rest.map (Sexpr.renameUnit a.text newName)).filterMap Sexpr.modelPath? =
      rest.filterMap Sexpr.modelPath? := by
    rw [List.filterMap_map]
    exact List.filterMap_congr fun child _ => modelPath?_renameUnit a.text newName child
  simp only [Sexpr.modelPaths, List.filterMap_cons, hrest]
  rfl

section Footprints

variable {env : Env} {ctx : Ctx} {categoryId : Option Uuid} {s t : State}

def HeldAs (t : State) (workspaceId : Uuid) (model : Model) (kind : Option DatafileKind)
    (row : CreatedRow) : Prop :=
  ∃ entry, activeByName t workspaceId model row.name kind none = some entry ∧
    row.again = createdRow (foundAgain (entry, row.created))

theorem HeldAs.grown (h : HeldAs s workspaceId model kind row) (hgrown : Grown s t) :
    HeldAs t workspaceId model kind row := by
  obtain ⟨entry, hactive, hrow⟩ := h
  exact ⟨entry, activeByName_grown hgrown hactive, hrow⟩

theorem heldAs_landed (h : Landed env workspaceId model storageKind kind render names stored s) :
    HeldAs s workspaceId model kind (createdRow stored) := by
  obtain ⟨name, -, data, -, hactive, -⟩ := h
  have hfound := List.find?_some hactive
  rw [decide_eq_true_eq] at hfound
  have hname : (createdRow stored).name = name := hfound.2.2.1
  exact ⟨stored.1, hname ▸ hactive, rfl⟩

def WrittenAs (env : Env) (models : ModelsByStem) (workspaceId : Uuid) (t : State)
    (pending : PendingFootprint) (row : CreatedRow) : Prop :=
  ∃ node, Sexpr.entryName node = .ok row.name ∧ Sexpr.Stable node ∧
    Sexpr.modelPaths node = Sexpr.modelPaths (rewriteModels env pending.val.node models).node ∧
    row.sha256 = env.sha256 (encode (Sexpr.emit node)) ∧
    (t.files.read (workspaceId, Model.entryKind .footprint) row.sha256).isSome = true

theorem WrittenAs.grown {models : ModelsByStem}
    (h : WrittenAs env models workspaceId s pending row) (hgrown : Grown s t) :
    WrittenAs env models workspaceId t pending row := by
  obtain ⟨node, hname, hstable, hpaths, hdigest, hfile⟩ := h
  obtain ⟨file, hread⟩ := Option.isSome_iff_exists.mp hfile
  refine ⟨node, hname, hstable, hpaths, hdigest, ?_⟩
  rw [hgrown.files _ _ _ hread]
  rfl

theorem writtenAs_landed {models : ModelsByStem}
    (h : Landed env workspaceId .footprint (Model.entryKind .footprint) none
      (renderEntry env .footprint pending.val.name (rewriteModels env pending.val.node models).node)
      names stored s) :
    WrittenAs env models workspaceId s pending (createdRow stored) := by
  obtain ⟨name, -, data, hrender, hactive, hdigest, hfile⟩ := h
  obtain ⟨hnamed, hstable, -⟩ := rewriteModels_node env models pending
  have hfound := List.find?_some hactive
  rw [decide_eq_true_eq] at hfound
  have hname : (createdRow stored).name = name := hfound.2.2.1
  have hsha : (createdRow stored).sha256 = env.sha256 data := hdigest
  by_cases hsame : name = pending.val.name
  · rw [renderEntry, if_pos hsame] at hrender
    obtain ⟨hbytes, -⟩ := canonicalEntryBytes_ok hrender
    exact ⟨_, hname ▸ hsame ▸ hnamed, hstable, rfl, hbytes ▸ hsha, hsha ▸ hfile⟩
  · rw [renderEntry, if_neg hsame] at hrender
    obtain ⟨renamed, hrenamed, hdata⟩ := Outcome.bind_ok.mp hrender
    rw [Outcome.mapError_ok] at hrenamed
    obtain ⟨hbytes, -⟩ := canonicalEntryBytes_ok hdata
    exact ⟨renamed, hname ▸ Sexpr.entryName_rename hrenamed, hstable.rename hrenamed,
      modelPaths_rename hrenamed, hbytes ▸ hsha, hsha ▸ hfile⟩

/-- The walk of a footprint over its names. -/
def footprintSlot (env : Env) (models : ModelsByStem) (shelf : Shelf)
    (footprint : PendingFootprint) : Option (Text × Text) :=
  shelf.walk env (renderEntry env .footprint footprint.val.name
    (rewriteModels env footprint.val.node models).node) (candidateNames footprint.val.name false)

/-- The names the footprints of a plan get, in order. -/
def filedNames (env : Env) (models : ModelsByStem) : Shelf → List PendingFootprint →
    List (Option Text)
  | _, [] => []
  | shelf, footprint :: rest =>
    let slot := footprintSlot env models shelf footprint
    slot.map (·.1) :: filedNames env models (shelf.filed slot) rest

theorem filedNames_congr {models models' : ModelsByStem}
    (h : models.map modelKey = models'.map modelKey) (shelf : Shelf)
    (pending : List PendingFootprint) :
    filedNames env models shelf pending = filedNames env models' shelf pending := by
  induction pending generalizing shelf with
  | nil => rfl
  | cons first rest ih =>
    have hslot : footprintSlot env models shelf first = footprintSlot env models' shelf first := by
      rw [footprintSlot, footprintSlot, rewriteModels_congr h]
    rw [filedNames, filedNames, hslot, ih]

def footprintNotes (env : Env) (models : ModelsByStem) (pending : PendingFootprint)
    (stored : Option CreatedRow) : List Skipped :=
  let filename := pending.val.filename
  let rewritten := rewriteModels env pending.val.node models
  if stored = none then [skip filename skipInvalidEntry]
  else (if rewritten.unmatchedOnly then [skip filename skipModelsUnmatched] else []) ++
    rewritten.dropped.map fun path => skip path skipModelDropped

def footprintResult (env : Env) (models : ModelsByStem) (pending : PendingFootprint)
    (stored : Option CreatedRow) (result : ImportResult) : ImportResult :=
  { result with
    footprints := result.footprints ++ stored.toList
    skipped := result.skipped ++ footprintNotes env models pending stored }

def linkedFootprint (env : Env) (workspaceId : Uuid) (models : ModelsByStem)
    (pending : PendingFootprint) (row : CreatedRow) : (Uuid × Uuid) × List Uuid :=
  ((workspaceId, row.id), (ordered (foundModels env pending.val.node models)).map (·.id))

def linkedFootprints (env : Env) (workspaceId : Uuid) (models : ModelsByStem)
    (pending : List PendingFootprint) (stored : List (Option CreatedRow)) :
    List ((Uuid × Uuid) × List Uuid) :=
  (pending.zip stored).filterMap fun filed => filed.2.map (linkedFootprint env workspaceId models filed.1)

def footprintOps (env : Env) (workspaceId : Uuid) (models : ModelsByStem)
    (pending : PendingFootprint) (stored : Option CreatedRow) : List (LinkKey × ℕ) :=
  positionsOf (linkedFootprints env workspaceId models [pending] [stored])

theorem footprintNotes_again (models : ModelsByStem) (pending : PendingFootprint)
    (stored : Option CreatedRow) :
    footprintNotes env (ModelsByStem.again models) pending (stored.map CreatedRow.again) =
      footprintNotes env models pending stored := by
  obtain ⟨-, hunmatched, hdropped⟩ := @rewriteModels_again env models pending.val.node
  simp only [footprintNotes, hunmatched, hdropped, Option.map_eq_none_iff]

theorem storeEntry_links {name : Text} {stored : Option (Entry × Bool)}
    (h : storeEntry env ctx model storageKind kind categoryId name render s = .ok (stored, t)) :
    t.links = s.links := by
  obtain ⟨-, rfl⟩ | ⟨candidate, -, data, row, -, -, hinsert⟩ := storeCandidates_ok h
  · rfl
  · obtain ⟨middle, hupload, rfl⟩ := insertEntry_ok hinsert
    obtain ⟨-, ⟨rfl, -⟩ | ⟨-, -, -, rfl⟩⟩ := uploadEntry_ok hupload
    · rfl
    · cases model <;> rfl

theorem linkModels_later {ctx' : Ctx} {footprintId : Uuid} {models again : List CreatedRow}
    {t' : State} (h : linkModels ctx footprintId models s = .ok t)
    (hworkspace : ctx'.workspaceId = ctx.workspaceId) (hgrown : Grown s t')
    (hagain : ∀ row ∈ again, ∃ first ∈ models, first.id = row.id) :
    ∃ t'', linkModels ctx' footprintId again t' = .ok t'' := by
  obtain ⟨hlinkable, -⟩ := linkModels_ok.mp h
  obtain ⟨links, hlinks⟩ : ∃ links : List FootprintModel, links.map linkEntry =
      assignAll (t'.links.map linkEntry) (linkOps ctx'.workspaceId footprintId again) := by
    refine ⟨(assignAll (t'.links.map linkEntry)
      (linkOps ctx'.workspaceId footprintId again)).map fun e => ⟨e.1.1.1, e.1.1.2, e.1.2, e.2⟩, ?_⟩
    rw [List.map_map]
    exact List.map_id _
  refine ⟨{ t' with links := links }, linkModels_ok.mpr ⟨fun row hrow => ?_, rfl, hlinks⟩⟩
  obtain ⟨first, hfirst, hid⟩ := hagain row hrow
  exact hid ▸ (hlinkable first hfirst).grown hworkspace hgrown

theorem importFootprint_again {models : ModelsByStem}
    (h : importFootprint env ctx categoryId models pending result s = .ok (after, t)) :
    ∃ stored, after = footprintResult env models pending stored result ∧
      t.links.map linkEntry = assignAll (s.links.map linkEntry)
        (footprintOps env ctx.workspaceId models pending stored) ∧
      stored.map (·.name) = (footprintSlot env models
        (shelfOf s ctx.workspaceId .footprint none) pending).map (·.1) ∧
      shelfOf t ctx.workspaceId .footprint none = (shelfOf s ctx.workspaceId .footprint none).filed
        (footprintSlot env models (shelfOf s ctx.workspaceId .footprint none) pending) ∧
      (∀ row ∈ stored, HeldAs t ctx.workspaceId .footprint none row ∧
        WrittenAs env models ctx.workspaceId t pending row) ∧
      ∀ ctx' t' result', ctx'.workspaceId = ctx.workspaceId → Grown t t' →
        ∃ links, importFootprint env ctx' categoryId (ModelsByStem.again models) pending result' t' =
            .ok (footprintResult env (ModelsByStem.again models) pending
              (stored.map CreatedRow.again) result', { t' with links := links }) ∧
          links.map linkEntry = assignAll (t'.links.map linkEntry)
            (footprintOps env ctx.workspaceId (ModelsByStem.again models) pending
              (stored.map CreatedRow.again)) := by
  obtain ⟨⟨stored, middle⟩, hstored, h⟩ := Outcome.bind_ok.mp h
  obtain ⟨hgrown, hlanded, hagain⟩ := storeCandidates_again hstored
  obtain ⟨hwalk, hshelf⟩ := storeCandidates_walk hstored
  have hslot : footprintSlot env models (shelfOf s ctx.workspaceId .footprint none) pending =
      stored.map fun row => (row.1.name, row.1.sha256) := hwalk
  obtain ⟨hnode, hunmatched, hdropped⟩ := @rewriteModels_again env models pending.val.node
  have hsecond : ∀ ctx' t', ctx'.workspaceId = ctx.workspaceId → Grown middle t' →
      importEntry env ctx' .footprint categoryId pending.val.name
        (rewriteModels env pending.val.node (ModelsByStem.again models)).node t' =
          .ok (stored.map foundAgain, t') := by
    intro ctx' t' hworkspace hlater
    rw [hnode]
    exact hagain ctx' t' hworkspace hlater
  cases stored with
  | none =>
    obtain ⟨rfl, rfl⟩ := Prod.mk.inj (Outcome.pure_ok.mp h)
    refine ⟨none, by simp [footprintResult, footprintNotes], ?_, by rw [hslot]; rfl,
      by rw [hslot]; exact hshelf, fun row hrow => absurd hrow (Option.not_mem_none row), ?_⟩
    · rw [storeEntry_links hstored]
      rfl
    · intro ctx' t' result' hworkspace hlater
      refine ⟨t'.links, ?_, rfl⟩
      rw [importFootprint, hsecond ctx' t' hworkspace hlater]
      simp [bind, Except.bind, footprintResult, footprintNotes, pure, Except.pure]
  | some row =>
    obtain ⟨linked, hlinked, hret⟩ := Outcome.bind_ok.mp h
    obtain ⟨rfl, rfl⟩ := Prod.mk.inj (Outcome.pure_ok.mp hret)
    rw [rewriteModels_found] at hlinked
    obtain ⟨-, ht, hentries⟩ := linkModels_ok.mp hlinked
    rw [storeEntry_links hstored, linkOps_eq] at hentries
    have hheld : HeldAs middle ctx.workspaceId .footprint none (createdRow row) :=
      heldAs_landed (hlanded row rfl)
    refine ⟨some (createdRow row), ?_, hentries, by rw [hslot]; rfl, ?_, ?_, ?_⟩
    · simp [footprintResult, footprintNotes, List.append_assoc]
    · rw [hslot, ← hshelf, ht]
      rfl
    · intro held hrow
      cases hrow
      rw [ht]
      exact ⟨hheld.grown (grown_links middle _),
        (writtenAs_landed (hlanded row rfl)).grown (grown_links middle _)⟩
    · intro ctx' t' result' hworkspace hlater
      have hgrown' : Grown middle t' := by
        rw [ht] at hlater
        exact (grown_links middle linked.links).trans hlater
      have hmodels : ∀ again ∈ foundModels env pending.val.node (ModelsByStem.again models),
          ∃ first ∈ foundModels env pending.val.node models, first.id = again.id := by
        intro again hagain
        rw [foundModels_again, KeyedWrites.mem_keepFirst] at hagain
        obtain ⟨first, hfirst, rfl⟩ := List.mem_map.mp hagain
        exact ⟨first, hfirst, rfl⟩
      have hchild : (ctx'.child 1).workspaceId = (ctx.child 1).workspaceId := hworkspace
      obtain ⟨t'', hlinked'⟩ := linkModels_later hlinked hchild hgrown' hmodels
      obtain ⟨-, ht'', hentries''⟩ := linkModels_ok.mp hlinked'
      rw [linkOps_eq] at hentries''
      refine ⟨t''.links, ?_, hworkspace ▸ hentries''⟩
      rw [importFootprint, hsecond ctx' t' hworkspace hgrown']
      simp only [bind, Except.bind, Option.map_some, createdRow_foundAgain, rewriteModels_found]
      have hid : (createdRow row).again.id = (createdRow row).id := rfl
      rw [hid, hlinked']
      simp only [pure, Except.pure, footprintResult, footprintNotes, reduceCtorEq, if_false,
        Option.toList_some, List.append_assoc, ← ht'']

def footprintsResult (env : Env) (models : ModelsByStem) (pending : List PendingFootprint)
    (stored : List (Option CreatedRow)) (result : ImportResult) : ImportResult :=
  { result with
    footprints := result.footprints ++ stored.reduceOption
    skipped := result.skipped ++ (pending.zip stored).flatMap fun filed =>
      footprintNotes env models filed.1 filed.2 }

theorem footprintsResult_cons (models : ModelsByStem) (first : PendingFootprint)
    (rest : List PendingFootprint) (row : Option CreatedRow) (stored : List (Option CreatedRow))
    (result : ImportResult) :
    footprintsResult env models (first :: rest) (row :: stored) result =
      footprintsResult env models rest stored (footprintResult env models first row result) := by
  cases row with
  | none => simp [footprintsResult, footprintResult, List.reduceOption]
  | some row => simp [footprintsResult, footprintResult, List.reduceOption]

theorem linkedFootprints_cons (workspaceId : Uuid) (models : ModelsByStem)
    (first : PendingFootprint) (rest : List PendingFootprint) (row : Option CreatedRow)
    (stored : List (Option CreatedRow)) :
    linkedFootprints env workspaceId models (first :: rest) (row :: stored) =
      linkedFootprints env workspaceId models [first] [row] ++
        linkedFootprints env workspaceId models rest stored := by
  cases row with
  | none => rfl
  | some row => rfl

theorem assignAll_append {κ ν : Type} [DecidableEq κ] (d ops later : List (κ × ν)) :
    assignAll d (ops ++ later) = assignAll (assignAll d ops) later := List.foldl_append ..

/-- What a run over footprints files, and what it files again. -/
structure FootprintsFiled (env : Env) (ctx : Ctx) (categoryId : Option Uuid)
    (models : ModelsByStem) (pending : List PendingFootprint) (s t : State)
    (stored : List (Option CreatedRow)) : Prop where
  links : t.links.map linkEntry = assignAll (s.links.map linkEntry)
    (positionsOf (linkedFootprints env ctx.workspaceId models pending stored))
  names : stored.map (Option.map (·.name)) =
    filedNames env models (shelfOf s ctx.workspaceId .footprint none) pending
  held : ∀ row, some row ∈ stored → HeldAs t ctx.workspaceId .footprint none row
  written : ∀ footprint row, (footprint, some row) ∈ pending.zip stored →
    WrittenAs env models ctx.workspaceId t footprint row
  again : ∀ ctx' t' result', ctx'.workspaceId = ctx.workspaceId → Grown t t' →
    ∃ links, importFootprints env ctx' categoryId (ModelsByStem.again models) pending result' t' =
        .ok (footprintsResult env (ModelsByStem.again models) pending (refound stored) result',
          { t' with links := links }) ∧
      links.map linkEntry = assignAll (t'.links.map linkEntry)
        (positionsOf (linkedFootprints env ctx.workspaceId (ModelsByStem.again models) pending
          (refound stored)))

theorem importFootprints_again {models : ModelsByStem} {pending : List PendingFootprint}
    (h : importFootprints env ctx categoryId models pending result s = .ok (after, t)) :
    ∃ stored, after = footprintsResult env models pending stored result ∧
      FootprintsFiled env ctx categoryId models pending s t stored := by
  induction pending generalizing ctx result s with
  | nil =>
    cases h
    refine ⟨[], by simp [footprintsResult, List.reduceOption], rfl, rfl,
      fun _ hrow => absurd hrow List.not_mem_nil, fun _ _ hrow => absurd hrow List.not_mem_nil,
      fun ctx' t' result' _ _ => ⟨t'.links, ?_, rfl⟩⟩
    simp [importFootprints, footprintsResult, refound, List.reduceOption]
  | cons first rest ih =>
    obtain ⟨⟨result', middle⟩, hfirst, h⟩ := Outcome.bind_ok.mp h
    obtain ⟨row, rfl, hlinks, hname, hshelf, hheld, hagain⟩ := importFootprint_again hfirst
    obtain ⟨stored, rfl, hrest⟩ := ih h
    have hgrown := (importFootprints_frame h).1
    refine ⟨row :: stored, (footprintsResult_cons ..).symm, ?_, ?_, ?_, ?_, ?_⟩
    · rw [linkedFootprints_cons, KeyedWrites.positionsOf_append, assignAll_append]
      exact hrest.links.trans (congrArg (assignAll · _) hlinks)
    · have hshelf' : shelfOf middle (ctx.child 1).workspaceId .footprint none =
          (shelfOf s ctx.workspaceId .footprint none).filed (footprintSlot env models
            (shelfOf s ctx.workspaceId .footprint none) first) := hshelf
      have hname' : row.map (·.name) = (footprintSlot env models
          (shelfOf s ctx.workspaceId .footprint none) first).map (·.1) := hname
      rw [List.map_cons, hrest.names, filedNames, hshelf', hname']
    · intro held hmem
      rcases List.mem_cons.mp hmem with heq | hmem
      · exact (hheld held heq.symm).1.grown hgrown
      · exact hrest.held held hmem
    · intro footprint made hmem
      rcases List.mem_cons.mp hmem with heq | hmem
      · obtain ⟨rfl, hrow⟩ := Prod.mk.inj heq
        exact (hheld made hrow.symm).2.grown hgrown
      · exact hrest.written footprint made hmem
    · intro ctx' t' result' hworkspace hlater
      obtain ⟨links, hnow, hentries⟩ := hagain (ctx'.child 0) t' result' hworkspace
        (hgrown.trans hlater)
      obtain ⟨links', hthen, hentries'⟩ := hrest.again (ctx'.child 1) { t' with links := links }
        (footprintResult env (ModelsByStem.again models) first (row.map CreatedRow.again) result')
        hworkspace (hlater.trans (grown_links t' links))
      refine ⟨links', Outcome.bind_ok.mpr ⟨_, hnow, ?_⟩, ?_⟩
      · rw [refound, List.map_cons, footprintsResult_cons]
        exact hthen
      · rw [refound, List.map_cons, linkedFootprints_cons, KeyedWrites.positionsOf_append,
          assignAll_append]
        exact hentries'.trans (congrArg (assignAll · _) hentries)

end Footprints

section Plans

variable {env : Env} {ctx : Ctx} {categoryId : Option Uuid} {s t : State}

def symbolsResult (pending : List PendingSymbol) (stored : List (Option CreatedRow))
    (result : ImportResult) : ImportResult :=
  { result with
    symbols := result.symbols ++ stored.reduceOption
    skipped := result.skipped ++ refusals (fun symbol => symbol.val.filename) pending stored }

theorem importSymbols_again {pending : List PendingSymbol}
    (h : importSymbols env ctx categoryId pending result s = .ok (after, t)) :
    ∃ stored, stored.length = pending.length ∧ after = symbolsResult pending stored result ∧
      t.links = s.links ∧ ∀ ctx' t' result', ctx'.workspaceId = ctx.workspaceId → Grown t t' →
        importSymbols env ctx' categoryId pending result' t' =
          .ok (symbolsResult pending (refound stored) result', t') := by
  induction pending generalizing ctx result s with
  | nil =>
    cases h
    refine ⟨[], rfl, by simp [symbolsResult, refusals], rfl, fun ctx' t' result' _ _ => ?_⟩
    simp [importSymbols, symbolsResult, refusals, refound]
  | cons first rest ih =>
    obtain ⟨⟨row, middle⟩, hfirst, h⟩ := Outcome.bind_ok.mp h
    obtain ⟨-, -, hagain⟩ := storeCandidates_again hfirst
    have hgrown := (importSymbols_frame h).1
    obtain ⟨stored, hlength, rfl, hlinks, hagain'⟩ := ih h
    refine ⟨row.map createdRow :: stored, by simp [hlength], ?_,
      hlinks.trans (storeEntry_links hfirst), ?_⟩
    · cases row <;> simp [symbolsResult, refusals, List.reduceOption]
    · intro ctx' t' result' hworkspace hlater
      have hnow : importEntry env (ctx'.child 0) .symbol categoryId first.val.name first.val.node
          t' = .ok (row.map foundAgain, t') :=
        hagain (ctx'.child 0) t' hworkspace (hgrown.trans hlater)
      rw [importSymbols, hnow]
      simp only [bind, Except.bind]
      rw [hagain' (ctx'.child 1) t' _ hworkspace hlater]
      cases row <;>
        simp [symbolsResult, refusals, refound, List.reduceOption, createdRow_foundAgain]

def ImportResult.again (result : ImportResult) : ImportResult :=
  { result with
    symbols := result.symbols.map CreatedRow.again
    footprints := result.footprints.map CreatedRow.again
    datafiles := result.datafiles.map CreatedRow.again }

theorem symbolsResult_again (pending : List PendingSymbol) (stored : List (Option CreatedRow))
    (result : ImportResult) : symbolsResult pending (refound stored) result.again =
      (symbolsResult pending stored result).again := by
  simp [symbolsResult, ImportResult.again, reduceOption_refound, refusals_refound]

theorem footprintsResult_again (models : ModelsByStem) (pending : List PendingFootprint)
    (stored : List (Option CreatedRow)) (result : ImportResult) :
    footprintsResult env (ModelsByStem.again models) pending (refound stored) result.again =
      (footprintsResult env models pending stored result).again := by
  have hnotes : ((pending.zip (refound stored)).flatMap fun filed =>
      footprintNotes env (ModelsByStem.again models) filed.1 filed.2) =
        (pending.zip stored).flatMap fun filed => footprintNotes env models filed.1 filed.2 := by
    rw [refound, List.zip_map_right, List.flatMap_map]
    exact List.flatMap_congr fun filed _ => footprintNotes_again models filed.1 filed.2
  simp only [footprintsResult, ImportResult.again, reduceOption_refound, hnotes, List.map_append]

theorem datafilesResult_again (pending : List PendingDatafile)
    (stored : List (Option CreatedRow)) (result : ImportResult) :
    datafilesResult pending (refound stored) result.again =
      (datafilesResult pending stored result).again := by
  simp [datafilesResult, ImportResult.again, reduceOption_refound, refusals_refound]

theorem importDatafiles_links {pending : List PendingDatafile} {models models' : ModelsByStem}
    (h : importDatafiles env ctx pending result models s = .ok (after, models', t)) :
    t.links = s.links := by
  induction pending generalizing ctx result models s with
  | nil =>
    cases h
    rfl
  | cons first rest ih =>
    rw [importDatafiles] at h
    obtain ⟨⟨row, middle⟩, hfirst, h⟩ := Outcome.bind_ok.mp h
    have hmiddle := storeEntry_links hfirst
    cases row with
    | none => exact (ih h).trans hmiddle
    | some row => exact (ih h).trans hmiddle

def ModelsHeld (t : State) (workspaceId : Uuid) (models : ModelsByStem) : Prop :=
  ∀ model ∈ models, HeldAs t workspaceId .datafile model.2.kind model.2

theorem ModelsHeld.grown {models : ModelsByStem}
    (h : ModelsHeld s workspaceId models) (hgrown : Grown s t) : ModelsHeld t workspaceId models :=
  fun model hmodel => (h model hmodel).grown hgrown

theorem importDatafiles_held {pending : List PendingDatafile} {result after : ImportResult}
    {models models' : ModelsByStem} (hheld : ModelsHeld s ctx.workspaceId models)
    (h : importDatafiles env ctx pending result models s = .ok (after, models', t)) :
    ModelsHeld t ctx.workspaceId models' := by
  induction pending generalizing ctx result models s with
  | nil =>
    cases h
    exact hheld
  | cons first rest ih =>
    rw [importDatafiles] at h
    obtain ⟨⟨row, middle⟩, hfirst, h⟩ := Outcome.bind_ok.mp h
    obtain ⟨hgrown, hlanded, -⟩ := storeCandidates_again hfirst
    cases row with
    | none => exact @ih (ctx.child 1) _ _ _ (hheld.grown hgrown) h
    | some row =>
      refine @ih (ctx.child 1) _ _ _ ?_ h
      intro model hmodel
      obtain ⟨-, hslot⟩ := importDatafile_slot hfirst
      obtain ⟨-, -, hrow⟩ := hslot row rfl
      have hkind : (createdRow row).kind = some first.kind := by rw [hrow]
      have hthis : HeldAs middle ctx.workspaceId .datafile (createdRow row).kind
          (createdRow row) := hkind ▸ heldAs_landed (hlanded row rfl)
      split at hmodel
      · exact (hheld.grown hgrown) model hmodel
      · rcases List.mem_append.mp hmodel with hmem | hmem
        · exact (hheld.grown hgrown) model hmem
        · rw [List.mem_singleton.mp hmem]
          exact hthis

/-- What an import files, and what the same import files later. -/
structure Refiled (env : Env) (ctx : Ctx) (plan : ImportPlan) (categoryId : Option Uuid)
    (s : State) (result : ImportResult) (t : State) (files prints : List (Option CreatedRow)) :
    Prop where
  kept : Grown s t
  slots : (modelsOf env plan.datafiles files).map slotOf =
    filedModels env (fileShelves s ctx.workspaceId) plan.datafiles
  models : ModelsHeld t ctx.workspaceId (modelsOf env plan.datafiles files)
  names : prints.map (Option.map (·.name)) =
    filedNames env (filedModels env (fileShelves s ctx.workspaceId) plan.datafiles)
      (shelfOf s ctx.workspaceId .footprint none) plan.footprints
  footprints : ∀ row, some row ∈ prints → HeldAs t ctx.workspaceId .footprint none row
  filed : files.length = plan.datafiles.length ∧ ∀ file row,
    (file, some row) ∈ plan.datafiles.zip files → FiledAs env ctx.workspaceId file row t
  written : ∀ footprint row, (footprint, some row) ∈ plan.footprints.zip prints →
    WrittenAs env (modelsOf env plan.datafiles files) ctx.workspaceId t footprint row
  reported : ∃ symbols, symbols.length = plan.symbols.length ∧ result =
    symbolsResult plan.symbols symbols (footprintsResult env (modelsOf env plan.datafiles files)
      plan.footprints prints (datafilesResult plan.datafiles files ⟨[], [], [], plan.skipped⟩))
  links : t.links.map linkEntry = assignAll (s.links.map linkEntry)
    (positionsOf (linkedFootprints env ctx.workspaceId (modelsOf env plan.datafiles files)
      plan.footprints prints))
  again : ∀ ctx', ctx'.workspaceId = ctx.workspaceId → ∃ links,
    importPlan env ctx' plan categoryId t = .ok (result.again, { t with links := links }) ∧
      links.map linkEntry = assignAll (t.links.map linkEntry)
        (positionsOf (linkedFootprints env ctx.workspaceId
          (ModelsByStem.again (modelsOf env plan.datafiles files)) plan.footprints
          (refound prints)))

/-- The plan imported again has the same result, creates nothing and changes only links. -/
theorem importPlan_refiled {plan : ImportPlan}
    (h : importPlan env ctx plan categoryId s = .ok (result, t)) :
    ∃ files prints, Refiled env ctx plan categoryId s result t files prints := by
  obtain ⟨_, hopen, h⟩ := Outcome.bind_ok.mp h
  obtain ⟨⟨result₁, models, s₁⟩, hfiles, h⟩ := Outcome.bind_ok.mp h
  obtain ⟨⟨result₂, s₂⟩, hprints, h⟩ := Outcome.bind_ok.mp h
  obtain ⟨files, hlength, rfl, rfl, hgrown, hfiledAs, hagain⟩ := importDatafiles_again hfiles
  obtain ⟨prints, rfl, hfiled⟩ := importFootprints_again hprints
  obtain ⟨symbols, hsymbols, rfl, hlinks', hagain''⟩ := importSymbols_again h
  have hgrown' := (importFootprints_frame hprints).1
  have hgrown'' := (importSymbols_frame h).1
  have hslots : (modelsOf env plan.datafiles files).map slotOf =
      filedModels env (fileShelves s ctx.workspaceId) plan.datafiles := importDatafiles_filed hfiles
  have hheld : ModelsHeld s₁ ctx.workspaceId (modelsOf env plan.datafiles files) :=
    @importDatafiles_held env (ctx.child 0) s s₁ _ _ _ [] _
      (fun _ hmodel => absurd hmodel List.not_mem_nil) hfiles
  have hkeys : (modelsOf env plan.datafiles files).map modelKey =
      (filedModels env (fileShelves s ctx.workspaceId) plan.datafiles).map modelKey := by
    rw [← hslots, List.map_map]
    rfl
  have hshelf : shelfOf s₁ ctx.workspaceId .footprint none =
      shelfOf s ctx.workspaceId .footprint none := by
    funext name
    rw [shelfOf, shelfOf, activeByName, activeByName, importDatafiles_rows (by decide) hfiles]
  have hnames : prints.map (Option.map (·.name)) = filedNames env
      (modelsOf env plan.datafiles files) (shelfOf s₁ ctx.workspaceId .footprint none)
      plan.footprints := hfiled.names
  refine ⟨files, prints, hgrown.trans (hgrown'.trans hgrown''), hslots,
    hheld.grown (hgrown'.trans hgrown''), ?_, fun row hrow => (hfiled.held row hrow).grown hgrown'',
    ⟨hlength, fun file row hmem => (hfiledAs file row hmem).grown (hgrown'.trans hgrown'')⟩,
    fun footprint row hmem => (hfiled.written footprint row hmem).grown hgrown'',
    ⟨symbols, hsymbols, rfl⟩, ?_, ?_⟩
  · rw [hnames, hshelf, filedNames_congr hkeys]
  · rw [hlinks', hfiled.links, importDatafiles_links hfiles]
    rfl
  · intro ctx' hworkspace
    have hopen' : assertCategory ctx' t categoryId true = .ok () := by
      rw [assertCategory_grown hworkspace (hgrown.trans (hgrown'.trans hgrown'')), hopen]
    let empty : ImportResult := ⟨[], [], [], plan.skipped⟩
    let models := modelsOf env plan.datafiles files
    have hnow : importDatafiles env (ctx'.child 0) plan.datafiles empty [] t =
        .ok (datafilesResult plan.datafiles (refound files) empty,
          modelsOf env plan.datafiles (refound files), t) :=
      hagain (ctx'.child 0) t empty [] hworkspace (hgrown'.trans hgrown'')
    obtain ⟨links, hthen, hentries⟩ := hfiled.again (ctx'.child 1) t
      (datafilesResult plan.datafiles (refound files) empty) hworkspace hgrown''
    have hlast := hagain'' (ctx'.child 2) { t with links := links }
      (footprintsResult env (ModelsByStem.again models) plan.footprints (refound prints)
        (datafilesResult plan.datafiles (refound files) empty)) hworkspace (grown_links t links)
    have hresult : symbolsResult plan.symbols (refound symbols)
        (footprintsResult env (ModelsByStem.again models) plan.footprints (refound prints)
          (datafilesResult plan.datafiles (refound files) empty)) =
        (symbolsResult plan.symbols symbols (footprintsResult env models plan.footprints prints
          (datafilesResult plan.datafiles files empty))).again := by
      have hempty : empty = empty.again := rfl
      rw [hempty, datafilesResult_again, footprintsResult_again, symbolsResult_again]
      rfl
    rw [hresult] at hlast
    rw [modelsOf_refound] at hnow
    exact ⟨links, Outcome.bind_ok.mpr ⟨(), hopen', Outcome.bind_ok.mpr ⟨_, hnow,
      Outcome.bind_ok.mpr ⟨_, hthen, hlast⟩⟩⟩, hentries⟩

end Plans

end StockManager.Eda
