import StockManager.Effects.ImportAgain
import StockManager.Properties.ArchiveReading
import StockManager.Properties.EntryNames

/-! # Importing a plan again

The second import of a plan finds the rows of the first. It leaves the links as they are exactly
where no model stands twice, up to its last place, in the footprint that places it last. -/

namespace StockManager.Eda

open Sexpr (Text Node)
open KeyedWrites (assignAll keepFirst keepMembers positionsOf Settled)

section Names

variable {env : Env} {s t : State} {workspaceId : Uuid} {model : Model}
  {kind kind' : Option DatafileKind} {row other : CreatedRow}

def UniqueIds (s : State) : Prop := ∀ model, ((s.rows model).map (·.id)).Nodup

def rowId (t : State) (workspaceId : Uuid) (model : Model) (kind : Option DatafileKind)
    (name : Text) : Uuid :=
  ((activeByName t workspaceId model name kind none).map (·.id)).getD 0

theorem HeldAs.id_eq (h : HeldAs t workspaceId model kind row) :
    rowId t workspaceId model kind row.name = row.id := by
  obtain ⟨entry, hactive, hrow⟩ := h
  have hid : row.again.id = entry.id := congrArg CreatedRow.id hrow
  rw [rowId, hactive]
  exact hid.symm

theorem HeldAs.eq_of_name (h : HeldAs t workspaceId model kind row)
    (h' : HeldAs t workspaceId model kind other) (hname : row.name = other.name) :
    row.again = other.again := by
  obtain ⟨entry, hactive, hrow⟩ := h
  obtain ⟨entry', hactive', hother⟩ := h'
  rw [hname, hactive'] at hactive
  cases hactive
  exact hrow.trans hother.symm

theorem HeldAs.eq_of_id (hids : UniqueIds t) (h : HeldAs t workspaceId model kind row)
    (h' : HeldAs t workspaceId model kind' other) (hid : row.id = other.id) :
    row.again = other.again := by
  obtain ⟨entry, hactive, hrow⟩ := h
  obtain ⟨entry', hactive', hother⟩ := h'
  have hrow' : row.again.id = entry.id := congrArg CreatedRow.id hrow
  have hother' : other.again.id = entry'.id := congrArg CreatedRow.id hother
  have hsame : entry.id = entry'.id := hrow'.symm.trans (hid.trans hother')
  have heq : entry = entry' := List.inj_on_of_nodup_map (hids model)
    (List.mem_of_find?_eq_some hactive) (List.mem_of_find?_eq_some hactive') hsame
  rw [hrow, hother, heq]
  rfl

theorem UniqueIds.step {offers : Model → Text → Node → Prop} {agree : Prop}
    (hids : UniqueIds s) (hstep : Step env workspaceId offers agree s t) : UniqueIds t := by
  intro other
  have hupdated : ∀ (u : State) (model : Model) (row : Entry), UniqueIds u →
      (((u.updateRow model row).rows other).map (·.id)).Nodup := by
    intro u model row hu
    by_cases heq : other = model
    · subst heq
      rw [ids_updateRow]
      exact hu other
    · rw [State.rows_updateRow_of_ne _ heq]
      exact hu other
  cases hstep with
  | wrote kind data =>
    rw [State.rows_store]
    exact hids other
  | inserted model row kind data hfresh hfree hfiled =>
    rw [State.rows_store]
    by_cases heq : other = model
    · subst heq
      rw [State.rows_setRows, List.map_append, List.nodup_append]
      refine ⟨hids other, List.nodup_singleton _, ?_⟩
      intro id hid id' hid' heq
      obtain ⟨r, hr, rfl⟩ := List.mem_map.mp hid
      exact hfresh r hr (heq.trans (List.mem_singleton.mp hid'))
    · rw [State.rows_setRows_of_ne _ heq]
      exact hids other
  | refiled model row row' => exact hupdated s model row' hids
  | renamed model row row' text node renamed =>
    refine hupdated _ model row' fun model' => ?_
    rw [State.rows_store]
    exact hids model'
  | relinked links =>
    rw [State.rows_links]
    exact hids other

theorem UniqueIds.imported {ctx : Ctx} {plan : ImportPlan} {categoryId : Option Uuid}
    {result : ImportResult} (hids : UniqueIds s)
    (h : importPlan env ctx plan categoryId s = .ok (result, t)) : UniqueIds t := by
  have hsteps : Steps env ctx.workspaceId (Offers (.importPlan plan categoryId)) True s t :=
    importPlan_steps h
  clear h
  induction hsteps with
  | refl => exact hids
  | tail _ hstep ih => exact ih.step hstep

end Names

section Slots

variable {env : Env} {t : State} {workspaceId : Uuid} {models : ModelsByStem}

theorem group_rows (f : CreatedRow → CreatedRow) (models : ModelsByStem) (path : Text) :
    ModelsByStem.group env (models.map fun model => (model.1, f model.2)) path =
      (models.group env path).map f := by
  rw [ModelsByStem.group, ModelsByStem.group, List.filter_map, List.map_map, List.map_map]
  rfl

theorem ordered_map (f : CreatedRow → CreatedRow) (hrank : ∀ row, (f row).rank = row.rank)
    (rows : List CreatedRow) : ordered (rows.map f) = (ordered rows).map f := by
  have hfirst : (fun row => decide (row.rank = 0)) ∘ f = fun row => decide (row.rank = 0) :=
    funext fun row => by rw [Function.comp, hrank]
  have hlater : (fun row => decide (row.rank ≠ 0)) ∘ f = fun row => decide (row.rank ≠ 0) :=
    funext fun row => by rw [Function.comp, hrank]
  rw [ordered, ordered, List.filter_map, List.filter_map, hfirst, hlater, List.map_append]

theorem ordered_keepFirst (rows : List CreatedRow) :
    ordered (keepFirst rows) = keepFirst (ordered rows) := by
  have hdisjoint : ∀ row ∈ rows.filter (·.rank ≠ 0), row ∉ rows.filter (·.rank = 0) := by
    intro row hrow hmem
    rw [List.mem_filter, decide_eq_true_eq] at hrow hmem
    exact hrow.2 hmem.2
  rw [ordered, ordered, KeyedWrites.keepFirst_append_disjoint hdisjoint,
    KeyedWrites.keepFirst_filter, KeyedWrites.keepFirst_filter]

theorem mem_foundModels {node : Node} {row : CreatedRow}
    (h : row ∈ foundModels env node models) : ∃ model ∈ models, model.2 = row := by
  rw [foundModels, KeyedWrites.mem_keepFirst] at h
  obtain ⟨path, -, hgroup⟩ := List.mem_flatMap.mp h
  obtain ⟨model, hmodel, heq⟩ := List.mem_map.mp hgroup
  exact ⟨model, (List.mem_filter.mp hmodel).1, heq⟩

theorem ModelsHeld.found (h : ModelsHeld t workspaceId models) {node : Node} {row : CreatedRow}
    (hrow : row ∈ foundModels env node models) :
    HeldAs t workspaceId .datafile row.kind row := by
  obtain ⟨model, hmodel, rfl⟩ := mem_foundModels hrow
  exact h model hmodel

/-- The kinds and names of a footprint's models, in the order of their positions. -/
def modelSlots (env : Env) (models : ModelsByStem) (node : Node) :
    List (Option DatafileKind × Text) :=
  (ordered (foundModels env node models)).map fun row => (row.kind, row.name)

theorem modelSlots_slotOf (h : ModelsHeld t workspaceId models) (node : Node) :
    modelSlots env (models.map slotOf) node = modelSlots env models node := by
  let anonymous : CreatedRow → CreatedRow := fun row => { row with id := 0 }
  have hgroups : (Sexpr.modelPaths node).flatMap (ModelsByStem.group env (models.map slotOf)) =
      ((Sexpr.modelPaths node).flatMap (models.group env)).map anonymous := by
    rw [List.map_flatMap]
    exact List.flatMap_congr fun path _ => group_rows anonymous models path
  have hinjective : ∀ a ∈ (Sexpr.modelPaths node).flatMap (models.group env),
      ∀ b ∈ (Sexpr.modelPaths node).flatMap (models.group env),
        anonymous a = anonymous b → a = b := by
    intro a ha b hb heq
    have hfound := h.found (KeyedWrites.mem_keepFirst.mpr ha)
    have hfound' := h.found (KeyedWrites.mem_keepFirst.mpr hb)
    obtain ⟨aid, aname, acreated, asha, akind⟩ := a
    obtain ⟨bid, bname, bcreated, bsha, bkind⟩ := b
    obtain ⟨-, rfl, rfl, rfl, rfl⟩ := CreatedRow.mk.inj heq
    have hagain := hfound.eq_of_name hfound' rfl
    obtain ⟨rfl, -⟩ := CreatedRow.mk.inj hagain
    rfl
  rw [modelSlots, modelSlots, foundModels, hgroups, KeyedWrites.keepFirst_map_of_injOn hinjective,
    ordered_map anonymous (fun _ => rfl), List.map_map]
  rfl

/-- The footprints that are filed, by name, with their models. -/
def slotEntries (env : Env) (models : ModelsByStem) (pending : List PendingFootprint)
    (names : List (Option Text)) : List (Text × List (Option DatafileKind × Text)) :=
  (pending.zip names).filterMap fun filed =>
    filed.2.map fun name => (name, modelSlots env models filed.1.val.node)

theorem slotEntries_slotOf (h : ModelsHeld t workspaceId models) (pending : List PendingFootprint)
    (names : List (Option Text)) :
    slotEntries env (models.map slotOf) pending names = slotEntries env models pending names := by
  simp only [slotEntries, modelSlots_slotOf h]

theorem linkedFootprints_slots {pending : List PendingFootprint}
    {stored : List (Option CreatedRow)} (hmodels : ModelsHeld t workspaceId models)
    (hprints : ∀ row, some row ∈ stored → HeldAs t workspaceId .footprint none row) :
    linkedFootprints env workspaceId models pending stored =
      (slotEntries env models pending (stored.map (Option.map (·.name)))).map fun entry =>
        ((workspaceId, rowId t workspaceId .footprint none entry.1),
          entry.2.map fun slot => rowId t workspaceId .datafile slot.1 slot.2) := by
  rw [linkedFootprints, slotEntries, List.zip_map_right, List.filterMap_map, List.map_filterMap]
  refine List.filterMap_congr fun filed hfiled => ?_
  obtain ⟨footprint, made⟩ := filed
  cases made with
  | none => rfl
  | some row =>
    have hheld := hprints row (List.of_mem_zip hfiled).2
    have hids : (modelSlots env models footprint.val.node).map (fun slot =>
        rowId t workspaceId .datafile slot.1 slot.2) =
          (ordered (foundModels env footprint.val.node models)).map (·.id) := by
      rw [modelSlots, List.map_map]
      exact List.map_congr_left fun model hmodel => (hmodels.found (mem_ordered.mp hmodel)).id_eq
    simp only [Function.comp, Prod.map, Option.map_some, id, hids, hheld.id_eq]
    rfl

theorem linkedFootprint_again (hids : UniqueIds t) (h : ModelsHeld t workspaceId models)
    (footprint : PendingFootprint) (row : CreatedRow) :
    linkedFootprint env workspaceId (ModelsByStem.again models) footprint row.again =
      ((workspaceId, row.id),
        keepFirst (linkedFootprint env workspaceId models footprint row).2) := by
  let rows := (ordered (foundModels env footprint.val.node models)).map CreatedRow.again
  have hinjective : ∀ a ∈ rows, ∀ b ∈ rows, a.id = b.id → a = b := by
    intro a ha b hb heq
    obtain ⟨first, hfirst, rfl⟩ := List.mem_map.mp ha
    obtain ⟨second, hsecond, rfl⟩ := List.mem_map.mp hb
    exact (h.found (mem_ordered.mp hfirst)).eq_of_id hids (h.found (mem_ordered.mp hsecond)) heq
  refine Prod.ext rfl ?_
  rw [linkedFootprint, foundModels_again, ordered_keepFirst,
    ordered_map CreatedRow.again (fun _ => rfl),
    ← KeyedWrites.keepFirst_map_of_injOn hinjective, List.map_map]
  rfl

theorem linkedFootprints_again (hids : UniqueIds t) (h : ModelsHeld t workspaceId models)
    (pending : List PendingFootprint) (stored : List (Option CreatedRow)) :
    linkedFootprints env workspaceId (ModelsByStem.again models) pending (refound stored) =
      keepMembers (linkedFootprints env workspaceId models pending stored) := by
  rw [linkedFootprints, refound, List.zip_map_right, List.filterMap_map, keepMembers,
    linkedFootprints, List.map_filterMap]
  refine List.filterMap_congr fun filed _ => ?_
  obtain ⟨footprint, made⟩ := filed
  cases made with
  | none => rfl
  | some row => exact congrArg some (linkedFootprint_again hids h footprint row)

end Slots

/-- What an import does when it is run again: nothing is made, and the state stays. -/
structure Reimported (env : Env) (ctx : Ctx) (plan : ImportPlan) (categoryId : Option Uuid)
    (s : State) (result : ImportResult) (t : State) : Prop where
  second : importPlan env ctx plan categoryId t = .ok (result.again, t)
  earlier : ∀ model, s.rows model <+: t.rows model
  bytes : s.files.Kept t.files

/-- In the footprint that places a model last, no model stands twice up to its last place. -/
def LinksSettled (env : Env) (workspaceId : Uuid) (s : State) (plan : ImportPlan) : Prop :=
  let models := filedModels env (fileShelves s workspaceId) plan.datafiles
  Settled (slotEntries env models plan.footprints
    (filedNames env models (shelfOf s workspaceId .footprint none) plan.footprints))

section Plans

variable {env : Env} {ctx ctx' : Ctx} {plan : ImportPlan} {categoryId : Option Uuid}
  {s t : State} {result : ImportResult} {files prints : List (Option CreatedRow)}

theorem Refiled.settled_iff (h : Refiled env ctx plan categoryId s result t files prints)
    (hids : UniqueIds t) :
    Settled (linkedFootprints env ctx.workspaceId (modelsOf env plan.datafiles files)
      plan.footprints prints) ↔ LinksSettled env ctx.workspaceId s plan := by
  have hslots := @slotEntries_slotOf env _ _ _ h.models plan.footprints
    (prints.map (Option.map (·.name)))
  have hsettled : LinksSettled env ctx.workspaceId s plan ↔
      Settled (slotEntries env (modelsOf env plan.datafiles files) plan.footprints
        (prints.map (Option.map (·.name)))) := by
    rw [LinksSettled, ← h.names, ← h.slots, hslots]
  have hentry : ∀ entry ∈ slotEntries env (modelsOf env plan.datafiles files) plan.footprints
      (prints.map (Option.map (·.name))),
        (∃ row, some row ∈ prints ∧ row.name = entry.1) ∧ ∀ slot ∈ entry.2,
          ∃ row, HeldAs t ctx.workspaceId .datafile row.kind row ∧
            (row.kind, row.name) = slot := by
    intro entry hmem
    obtain ⟨⟨footprint, name⟩, hfiled, heq⟩ := List.mem_filterMap.mp hmem
    obtain ⟨name, rfl, rfl⟩ := Option.map_eq_some_iff.mp heq
    constructor
    · obtain ⟨made, hmade, hname⟩ := List.mem_map.mp (List.of_mem_zip hfiled).2
      obtain ⟨row, rfl, hrow⟩ := Option.map_eq_some_iff.mp hname
      exact ⟨row, hmade, hrow⟩
    · intro slot hslot
      obtain ⟨row, hrow, heq⟩ := List.mem_map.mp hslot
      exact ⟨row, h.models.found (mem_ordered.mp hrow), heq⟩
  rw [hsettled, linkedFootprints_slots h.models h.footprints]
  refine KeyedWrites.settled_map
    (f := fun name => (ctx.workspaceId, rowId t ctx.workspaceId .footprint none name))
    (g := fun slot : Option DatafileKind × Text => rowId t ctx.workspaceId .datafile slot.1 slot.2)
    (fun a ha b hb heq => ?_) fun a ha b hb x hx y hy heq => ?_
  · obtain ⟨⟨row, hrow, hname⟩, -⟩ := hentry a ha
    obtain ⟨⟨row', hrow', hname'⟩, -⟩ := hentry b hb
    have hheld := h.footprints row hrow
    have hheld' := h.footprints row' hrow'
    have hid := (Prod.mk.inj heq).2
    rw [← hname, ← hname', hheld.id_eq, hheld'.id_eq] at hid
    rw [← hname, ← hname']
    have hsame : row.again.name = row'.again.name :=
      congrArg CreatedRow.name (hheld.eq_of_id hids hheld' hid)
    exact hsame
  · obtain ⟨row, hheld, rfl⟩ := (hentry a ha).2 x hx
    obtain ⟨row', hheld', rfl⟩ := (hentry b hb).2 y hy
    rw [hheld.id_eq, hheld'.id_eq] at heq
    have hagain := hheld.eq_of_id hids hheld' heq
    have hkind : row.again.kind = row'.again.kind := congrArg CreatedRow.kind hagain
    have hname : row.again.name = row'.again.name := congrArg CreatedRow.name hagain
    exact Prod.ext hkind hname

/-- A plan that was imported is imported again, and then changes nothing, just where its links
are settled. -/
theorem importPlan_twice (hids : UniqueIds s) (hworkspace : ctx'.workspaceId = ctx.workspaceId)
    (h : importPlan env ctx plan categoryId s = .ok (result, t)) :
    Reimported env ctx' plan categoryId s result t ↔ LinksSettled env ctx.workspaceId s plan := by
  have hids' := hids.imported h
  obtain ⟨files, prints, hrefiled⟩ := importPlan_refiled h
  obtain ⟨links, hsecond, hlinks⟩ := hrefiled.again ctx' hworkspace
  have hsame : Reimported env ctx' plan categoryId s result t ↔ links = t.links := by
    constructor
    · intro hagain
      have heq := Outcome.ok_unique hsecond hagain.second
      exact congrArg State.links (Prod.mk.inj heq).2
    · rintro rfl
      exact ⟨hsecond, hrefiled.kept.rows, hrefiled.kept.files⟩
  rw [hsame, ← (List.map_injective_iff.mpr linkEntry_injective).eq_iff, hlinks, hrefiled.links,
    linkedFootprints_again hids' hrefiled.models,
    KeyedWrites.assignAll_again fun _ => KeyedWrites.mem_keys_keepMembers.mp,
    KeyedWrites.positions_kept_iff]
  exact hrefiled.settled_iff hids'

end Plans

def modeledFootprint : PendingFootprint :=
  ⟨⟨"R".toList, [Sexpr.bare "footprint", Sexpr.quoted "R".toList,
      .node [Sexpr.bare "model", Sexpr.quoted "m.step".toList]], "R.kicad_mod".toList, rfl,
    by decide, _, _, Sexpr.Stable.parse_emit ⟨rfl, Nat.le_of_ble_eq_true rfl⟩, .inl rfl⟩,
    _, rfl, by decide⟩

def stepFile : PendingDatafile :=
  ⟨.step, "m.step".toList, "ISO-10303-21;".toByteArray⟩

def wrlFile : PendingDatafile :=
  ⟨.wrl, "m.wrl".toList, "#VRML V2.0".toByteArray⟩

def modeledPlan (files : List PendingDatafile) : ImportPlan where
  symbols := []
  footprints := [modeledFootprint]
  datafiles := files
  skipped := []

def positionsAgain (plan : ImportPlan) : Option (List ℕ × List ℕ) := do
  let (_, first) ← (importPlan asciiArchiveEnv.toEnv (sampleCtx 40) plan none sampleState).toOption
  let (_, second) ← (importPlan asciiArchiveEnv.toEnv (sampleCtx 60) plan none first).toOption
  return (first.links.map (·.position), second.links.map (·.position))

theorem positionsAgain_some {plan : ImportPlan} {first second : List ℕ}
    (h : positionsAgain plan = some (first, second)) : ∃ result t,
      importPlan asciiArchiveEnv.toEnv (sampleCtx 40) plan none sampleState = .ok (result, t) ∧
        (Reimported asciiArchiveEnv.toEnv (sampleCtx 60) plan none sampleState result t →
          first = second) := by
  obtain ⟨⟨result, t⟩, hfirst, h⟩ := Option.bind_eq_some_iff.mp h
  obtain ⟨⟨result', t'⟩, hsecond, h⟩ := Option.bind_eq_some_iff.mp h
  obtain ⟨rfl, rfl⟩ := Prod.mk.inj (Option.some.inj h)
  refine ⟨result, t, Outcome.toOption_eq_some.mp hfirst, fun hagain => ?_⟩
  have heq := Outcome.ok_unique hagain.second (Outcome.toOption_eq_some.mp hsecond)
  exact congrArg (fun u : State => u.links.map (·.position)) (Prod.mk.inj heq).2

/-- Two members of one name and content: their model stands at position one, then at zero. -/
theorem import_moves_link : ∃ result t,
    importPlan asciiArchiveEnv.toEnv (sampleCtx 40) (modeledPlan [stepFile, stepFile]) none
      sampleState = .ok (result, t) ∧
    ¬Reimported asciiArchiveEnv.toEnv (sampleCtx 60) (modeledPlan [stepFile, stepFile]) none
      sampleState result t := by
  have hpositions : positionsAgain (modeledPlan [stepFile, stepFile]) = some ([1], [0]) := by
    decide +kernel
  obtain ⟨result, t, himport, hmoved⟩ := positionsAgain_some hpositions
  exact ⟨result, t, himport, fun hagain => absurd (hmoved hagain) (by decide)⟩

theorem importPlan_twice_models : ∃ result t,
    importPlan asciiArchiveEnv.toEnv (sampleCtx 40) (modeledPlan [stepFile, wrlFile]) none
      sampleState = .ok (result, t) ∧
    Reimported asciiArchiveEnv.toEnv (sampleCtx 60) (modeledPlan [stepFile, wrlFile]) none
      sampleState result t := by
  have hpositions : positionsAgain (modeledPlan [stepFile, wrlFile]) =
      some ([0, 1], [0, 1]) := by decide +kernel
  obtain ⟨result, t, himport, -⟩ := positionsAgain_some hpositions
  have hids : UniqueIds sampleState := fun model => by cases model <;> exact List.nodup_nil
  have hworkspace : (sampleCtx 60).workspaceId = (sampleCtx 40).workspaceId := rfl
  refine ⟨result, t, himport, (importPlan_twice hids hworkspace himport).mpr ?_⟩
  exact KeyedWrites.settled_of_nodup (by decide)

end StockManager.Eda
