import StockManager.Effects.ImportRuns
import StockManager.Library.Projection

/-! # Imports without their category

Whether a row is found or made does not depend on the category of any row: under a category that
is open an import does what it does without one, the rows' categories aside. -/

namespace StockManager.Eda

open Sexpr (Text Node)

variable {result : ImportResult} {name : Text} {storageKind : StorageKind}
  {render : Text → Except EdaError ByteArray} {models : ModelsByStem}

def Entry.uncategorised (row : Entry) : Entry := { row with categoryId := none }

def State.uncategorised (s : State) : State :=
  { s with
    symbols := s.symbols.map Entry.uncategorised
    footprints := s.footprints.map Entry.uncategorised
    datafiles := s.datafiles.map Entry.uncategorised }

def storedView (stored : (Entry × Bool) × State) : (Entry × Bool) × State :=
  ((stored.1.1.uncategorised, stored.1.2), stored.2.uncategorised)

def walkView (stored : Option (Entry × Bool) × State) : Option (Entry × Bool) × State :=
  (stored.1.map fun row => (row.1.uncategorised, row.2), stored.2.uncategorised)

def resultView {α : Type} (result : α × State) : α × State :=
  (result.1, result.2.uncategorised)

section Rows

variable {env : Env} {ctx : Ctx} {model : Model} {s : State}

@[simp] theorem rows_uncategorised (s : State) (model : Model) :
    s.uncategorised.rows model = (s.rows model).map Entry.uncategorised := by
  cases model <;> rfl

theorem setRows_uncategorised (s : State) (model : Model) (rows : List Entry) :
    (s.setRows model rows).uncategorised =
      s.uncategorised.setRows model (rows.map Entry.uncategorised) := by
  cases model <;> rfl

theorem newEntry_uncategorised (name sha256 : Text) (sizeBytes : ℕ) (kind : Option DatafileKind)
    (categoryId : Option Uuid) :
    (newEntry ctx model name sha256 sizeBytes kind categoryId).uncategorised =
      newEntry ctx model name sha256 sizeBytes kind none := by
  cases model <;> rfl

theorem activeByName_uncategorised (s : State) (workspaceId : Uuid) (model : Model) (name : Text)
    (kind : Option DatafileKind) (excludeId : Option Uuid) :
    activeByName s.uncategorised workspaceId model name kind excludeId =
      (activeByName s workspaceId model name kind excludeId).map Entry.uncategorised := by
  rw [activeByName, rows_uncategorised, List.find?_map]
  rfl

theorem getEntry_uncategorised (id : Uuid) : getEntry ctx s.uncategorised model id =
    (getEntry ctx s model id).map Entry.uncategorised := by
  have hfind : (s.uncategorised.rows model).find?
      (fun r => r.id = id ∧ r.workspaceId = ctx.workspaceId) =
        ((s.rows model).find? fun r => r.id = id ∧ r.workspaceId = ctx.workspaceId).map
          Entry.uncategorised := by
    rw [rows_uncategorised, List.find?_map]
    rfl
  rw [getEntry, getEntry, hfind]
  cases (s.rows model).find? fun r => r.id = id ∧ r.workspaceId = ctx.workspaceId <;> rfl

theorem insertRow_uncategorised (s : State) (model : Model) (row : Entry) :
    (s.insertEntry model row).map State.uncategorised =
      s.uncategorised.insertEntry model row.uncategorised := by
  have hfresh : (∀ r ∈ s.uncategorised.rows model, r.id ≠ row.uncategorised.id) ↔
      ∀ r ∈ s.rows model, r.id ≠ row.id := by
    rw [rows_uncategorised, List.forall_mem_map]
    rfl
  have hrows : (s.setRows model (s.rows model ++ [row])).uncategorised =
      s.uncategorised.setRows model (s.uncategorised.rows model ++ [row.uncategorised]) := by
    rw [setRows_uncategorised, rows_uncategorised, List.map_append, List.map_singleton]
  rw [State.insertEntry, State.insertEntry, Outcome.check_congr hfresh, ← hrows]
  exact Outcome.map_bind_shared fun _ _ => Outcome.map_bind_shared fun _ _ => rfl

end Rows

section Storing

variable {env : Env} {ctx : Ctx} {model : Model} {kind : Option DatafileKind}
  {categoryId : Option Uuid} {s : State}

theorem uploadEntry_uncategorised {name sha256 : Text} {sizeBytes : ℕ}
    (hopen : assertCategory ctx s categoryId true = .ok ()) :
    (uploadEntry ctx model name sha256 sizeBytes kind categoryId s).map storedView =
      uploadEntry ctx model name sha256 sizeBytes kind none s.uncategorised := by
  have hactive := activeByName_uncategorised s ctx.workspaceId model name kind none
  have hnone : assertCategory ctx s.uncategorised none true = .ok () := rfl
  cases hfound : activeByName s ctx.workspaceId model name kind none with
  | some existing =>
    rw [hfound, Option.map_some] at hactive
    simp only [uploadEntry, hopen, hnone, bind, Except.bind, hfound, hactive]
    by_cases hsha : existing.sha256 = sha256
    · have hsha' : existing.uncategorised.sha256 = sha256 := hsha
      rw [if_pos hsha, if_pos hsha']
      rfl
    · have hsha' : existing.uncategorised.sha256 ≠ sha256 := hsha
      rw [if_neg hsha, if_neg hsha']
      cases model <;> rfl
  | none =>
    rw [hfound, Option.map_none] at hactive
    have hinsert := insertRow_uncategorised s model
      (newEntry ctx model name sha256 sizeBytes kind categoryId)
    rw [newEntry_uncategorised] at hinsert
    simp only [uploadEntry, hopen, hnone, bind, Except.bind, hfound, hactive, ← hinsert]
    cases s.insertEntry model (newEntry ctx model name sha256 sizeBytes kind categoryId) with
    | error e => rfl
    | ok t =>
      show Except.ok (((newEntry ctx model name sha256 sizeBytes kind categoryId).uncategorised,
        true), t.uncategorised) = _
      rw [newEntry_uncategorised]
      rfl

theorem insertEntry_uncategorised {data : ByteArray}
    (hopen : assertCategory ctx s categoryId true = .ok ()) :
    (insertEntry env ctx model storageKind kind categoryId name data s).map storedView =
      insertEntry env ctx model storageKind kind none name data s.uncategorised := by
  rw [insertEntry, insertEntry, ← uploadEntry_uncategorised hopen]
  exact Outcome.map_bind fun stored _ => rfl

theorem storeCandidates_uncategorised
    {insert insert' : Text → ByteArray → State → Except EdaError ((Entry × Bool) × State)}
    (hinsert : ∀ name data, (insert name data s).map storedView =
      insert' name data s.uncategorised) (name : Text) (later : List Text) :
    (storeCandidates render insert name later s).map walkView =
      storeCandidates render insert' name later s.uncategorised := by
  induction later generalizing name with
  | nil =>
    rw [storeCandidates, storeCandidates]
    refine Outcome.map_bind_shared fun data _ => ?_
    cases data with
    | none => rfl
    | some data =>
      simp only [← hinsert name data]
      cases insert name data s <;> rfl
  | cons next later ih =>
    rw [storeCandidates, storeCandidates]
    refine Outcome.map_bind_shared fun data _ => ?_
    cases data with
    | none => rfl
    | some data =>
      simp only [← hinsert name data]
      cases insert name data s with
      | ok stored => rfl
      | error e =>
        by_cases hconflict : isNameConflict e = true
        · simp only [Except.map, hconflict, if_true]
          exact ih next
        · simp only [Except.map, hconflict]
          rfl

theorem storeEntry_uncategorised (hopen : assertCategory ctx s categoryId true = .ok ()) :
    (storeEntry env ctx model storageKind kind categoryId name render s).map walkView =
      storeEntry env ctx model storageKind kind none name render s.uncategorised :=
  storeCandidates_uncategorised (fun _ _ => insertEntry_uncategorised hopen) _ _

theorem createdRow_uncategorised (stored : Entry × Bool) :
    createdRow (stored.1.uncategorised, stored.2) = createdRow stored := rfl

end Storing

section Plans

variable {env : Env} {ctx : Ctx} {categoryId : Option Uuid} {s : State}

theorem linkFootprintModel_uncategorised (footprintId datafileId : Uuid) (position : ℕ)
    (s : State) :
    (linkFootprintModel ctx footprintId datafileId position s).map (fun linked =>
        (linked.1.uncategorised, linked.2.uncategorised)) =
      linkFootprintModel ctx footprintId datafileId position s.uncategorised := by
  rw [linkFootprintModel, linkFootprintModel, getEntry_uncategorised, getEntry_uncategorised]
  refine Outcome.map_bind fun footprint _ => ?_
  refine Outcome.map_bind fun datafile _ => ?_
  exact Outcome.map_bind_shared fun _ _ => rfl

theorem linkModels_uncategorised (footprintId : Uuid) (models : List CreatedRow) (s : State) :
    (linkModels ctx footprintId models s).map State.uncategorised =
      linkModels ctx footprintId models s.uncategorised := by
  refine Outcome.map_foldlM (fun m linked => ?_) _ s
  obtain ⟨row, position⟩ := linked
  simp only
  rw [← linkFootprintModel_uncategorised]
  exact Outcome.map_bind fun _ _ => rfl

theorem importDatafiles_uncategorised (pending : List PendingDatafile) (result : ImportResult)
    (models : ModelsByStem) (s : State) :
    (importDatafiles env ctx pending result models s).map (fun after =>
        (after.1, after.2.1, after.2.2.uncategorised)) =
      importDatafiles env ctx pending result models s.uncategorised := by
  induction pending generalizing ctx result models s with
  | nil => rfl
  | cons first rest ih =>
    have hfirst : (importDatafile env (ctx.child 0) first s).map walkView =
        importDatafile env (ctx.child 0) first s.uncategorised := storeEntry_uncategorised rfl
    rw [importDatafiles, importDatafiles, ← hfirst]
    refine Outcome.map_bind fun stored _ => ?_
    obtain ⟨stored, middle⟩ := stored
    cases stored with
    | none => exact ih ..
    | some stored => exact ih ..

theorem importFootprint_uncategorised {pending : PendingFootprint}
    (hopen : assertCategory ctx s categoryId true = .ok ()) :
    (importFootprint env ctx categoryId models pending result s).map resultView =
      importFootprint env ctx none models pending result s.uncategorised := by
  have hentry : (importEntry env ctx .footprint categoryId pending.val.name
      (rewriteModels env pending.val.node models).node s).map walkView =
        importEntry env ctx .footprint none pending.val.name
          (rewriteModels env pending.val.node models).node s.uncategorised :=
    storeEntry_uncategorised hopen
  rw [importFootprint, importFootprint, ← hentry]
  refine Outcome.map_bind fun stored _ => ?_
  obtain ⟨stored, middle⟩ := stored
  cases stored with
  | none => rfl
  | some stored =>
    simp only [walkView, Option.map_some, createdRow_uncategorised]
    rw [← linkModels_uncategorised]
    exact Outcome.map_bind fun _ _ => rfl

theorem importFootprints_uncategorised {pending : List PendingFootprint}
    (hopen : assertCategory ctx s categoryId true = .ok ()) :
    (importFootprints env ctx categoryId models pending result s).map resultView =
      importFootprints env ctx none models pending result s.uncategorised := by
  induction pending generalizing ctx result s with
  | nil => rfl
  | cons first rest ih =>
    have hopen' : assertCategory (ctx.child 0) s categoryId true = .ok () := hopen
    rw [importFootprints, importFootprints, ← importFootprint_uncategorised hopen']
    refine Outcome.map_bind fun after hafter => ih ?_
    exact (assertCategory_grown rfl (importFootprint_frame hafter).1).trans hopen

theorem importSymbols_uncategorised {pending : List PendingSymbol}
    (hopen : assertCategory ctx s categoryId true = .ok ()) :
    (importSymbols env ctx categoryId pending result s).map resultView =
      importSymbols env ctx none pending result s.uncategorised := by
  induction pending generalizing ctx result s with
  | nil => rfl
  | cons first rest ih =>
    have hentry : (importEntry env (ctx.child 0) .symbol categoryId first.val.name first.val.node
        s).map walkView =
          importEntry env (ctx.child 0) .symbol none first.val.name first.val.node
            s.uncategorised := storeEntry_uncategorised hopen
    rw [importSymbols, importSymbols, ← hentry]
    refine Outcome.map_bind fun stored hstored => ?_
    obtain ⟨stored, middle⟩ := stored
    have hlater : assertCategory (ctx.child 1) middle categoryId true = .ok () :=
      (assertCategory_grown rfl (storeCandidates_again hstored).1).trans hopen
    cases stored with
    | none => exact ih hlater
    | some stored => exact ih hlater

/-- An import under an open category is the one without it, the categories aside. -/
theorem importPlan_uncategorised {plan : ImportPlan}
    (hopen : assertCategory ctx s categoryId true = .ok ()) :
    (importPlan env ctx plan categoryId s).map resultView =
      importPlan env ctx plan none s.uncategorised := by
  rw [importPlan, importPlan, hopen]
  show (importDatafiles env (ctx.child 0) plan.datafiles _ [] s >>= _).map resultView =
    importDatafiles env (ctx.child 0) plan.datafiles _ [] s.uncategorised >>= _
  rw [← importDatafiles_uncategorised]
  refine Outcome.map_bind fun filed hfiled => ?_
  obtain ⟨result, models, middle⟩ := filed
  obtain ⟨_, -, -, -, hgrown, -⟩ := importDatafiles_again hfiled
  have hmiddle : assertCategory (ctx.child 1) middle categoryId true = .ok () :=
    (assertCategory_grown rfl hgrown).trans hopen
  simp only
  rw [← importFootprints_uncategorised hmiddle]
  refine Outcome.map_bind fun after hafter => importSymbols_uncategorised ?_
  exact (assertCategory_grown rfl (importFootprints_frame hafter).1).trans hmiddle

end Plans

end StockManager.Eda
