import StockManager.Effects.EdaSteps

/-! # Imports that are run again

What an import stores is found again in every later state of the library: a name that was taken
is still taken, and the name that was chosen holds the same content. -/

namespace StockManager.Eda

open Sexpr (Text Node)

variable {name : Text} {data : ByteArray} {result after : ImportResult} {row : Entry}
  {stored : Entry × Bool} {e : EdaError}
variable {models models' : ModelsByStem} {changed : Bool} {sizeBytes : ℕ} {t' : State}
  {render : Text → Except EdaError ByteArray} {pending : PendingDatafile}

/-- Rows and files stay; links may differ. -/
structure Grown (s t : State) : Prop where
  rows : ∀ model, s.rows model <+: t.rows model
  categories : t.categories = s.categories
  files : s.files.Kept t.files

theorem Grown.refl (s : State) : Grown s s :=
  ⟨fun _ => List.prefix_rfl, rfl, ContentStore.Kept.refl _⟩

theorem Grown.trans {s m t : State} (h : Grown s m) (h' : Grown m t) : Grown s t :=
  ⟨fun model => (h.rows model).trans (h'.rows model), h'.categories.trans h.categories,
    h.files.trans h'.files⟩

theorem grown_links (s : State) (links : List FootprintModel) :
    Grown s { s with links := links } :=
  ⟨fun model => by cases model <;> exact List.prefix_rfl, rfl, ContentStore.Kept.refl _⟩

theorem grown_store (env : Env) (s : State) (workspaceId : Uuid) (kind : StorageKind)
    (data : ByteArray) : Grown s (s.store env workspaceId kind data) :=
  ⟨fun model => by rw [State.rows_store], rfl, ContentStore.kept_write _ _⟩

theorem categories_setRows (s : State) (model : Model) (rows : List Entry) :
    (s.setRows model rows).categories = s.categories := by
  cases model <;> rfl

theorem grown_insert (s : State) (model : Model) (row : Entry) :
    Grown s (s.setRows model (s.rows model ++ [row])) := by
  refine ⟨fun other => ?_, categories_setRows s model _, ?_⟩
  · by_cases h : other = model
    · subst h
      rw [State.rows_setRows]
      exact List.prefix_append _ _
    · rw [State.rows_setRows_of_ne s h]
  · rw [State.files_setRows]
    exact ContentStore.Kept.refl _

section Found

variable {s t : State} {workspaceId : Uuid} {model : Model} {name : Text}
  {kind : Option DatafileKind}

theorem activeByName_grown (h : Grown s t)
    (hfound : activeByName s workspaceId model name kind none = some row) :
    activeByName t workspaceId model name kind none = some row := by
  obtain ⟨more, hmore⟩ := h.rows model
  unfold activeByName at hfound ⊢
  rw [← hmore, List.find?_append, hfound, Option.some_or]

theorem assertCategory_grown {ctx ctx' : Ctx} {categoryId : Option Uuid}
    (hworkspace : ctx'.workspaceId = ctx.workspaceId) (h : Grown s t) :
    assertCategory ctx' t categoryId changed = assertCategory ctx s categoryId changed := by
  simp only [assertCategory, h.categories, hworkspace]

theorem getEntry_grown {ctx ctx' : Ctx} {id : Uuid}
    (hworkspace : ctx'.workspaceId = ctx.workspaceId) (h : Grown s t)
    (hfound : getEntry ctx s model id = .ok row) : getEntry ctx' t model id = .ok row := by
  obtain ⟨more, hmore⟩ := h.rows model
  unfold getEntry at hfound ⊢
  rw [Outcome.orRaise_ok] at hfound
  rw [← hmore, List.find?_append, hworkspace, hfound]
  rfl

theorem activeByName_insert {ctx : Ctx} {sha256 : Text} {categoryId : Option Uuid}
    (hfree : activeByName s ctx.workspaceId model name kind none = none) :
    activeByName
        (s.setRows model
          (s.rows model ++ [newEntry ctx model name sha256 sizeBytes kind categoryId]))
        ctx.workspaceId model name kind none =
      some (newEntry ctx model name sha256 sizeBytes kind categoryId) := by
  unfold activeByName at hfree ⊢
  rw [State.rows_setRows, List.find?_append, hfree, Option.none_or, List.find?_cons_of_pos]
  simp only [newEntry, decide_eq_true_eq, true_and]
  refine ⟨fun hmodel => if_pos hmodel, by simp⟩

end Found

section Storing

variable {env : Env} {ctx ctx' : Ctx} {model : Model} {storageKind : StorageKind}
  {kind : Option DatafileKind} {categoryId : Option Uuid} {s t : State}

def NameHolds (env : Env) (workspaceId : Uuid) (model : Model) (storageKind : StorageKind)
    (kind : Option DatafileKind) (name : Text) (data : ByteArray) (row : Entry) (s : State) :
    Prop :=
  activeByName s workspaceId model name kind none = some row ∧ row.sha256 = env.sha256 data ∧
    (s.files.read (workspaceId, storageKind) (env.sha256 data)).isSome = true

theorem NameHolds.grown {workspaceId : Uuid}
    (h : NameHolds env workspaceId model storageKind kind name data row s) (hgrown : Grown s t) :
    NameHolds env workspaceId model storageKind kind name data row t := by
  obtain ⟨hactive, hsha, hfile⟩ := h
  obtain ⟨file, hread⟩ := Option.isSome_iff_exists.mp hfile
  refine ⟨activeByName_grown hgrown hactive, hsha, ?_⟩
  rw [hgrown.files _ _ _ hread]
  rfl

theorem read_store (s : State) (workspaceId : Uuid) (data : ByteArray) :
    ((s.store env workspaceId storageKind data).files.read (workspaceId, storageKind)
      (env.sha256 data)).isSome = true := by
  unfold State.store ContentStore.write
  split
  · rename_i hpresent
    exact hpresent
  · rw [ContentStore.read_cons, if_pos rfl]
    rfl

theorem uploadEntry_found {name sha256 : Text}
    (h : uploadEntry ctx model name sha256 sizeBytes kind categoryId s = .ok (stored, t)) :
    assertCategory ctx s categoryId true = .ok () ∧ Grown s t ∧
      activeByName t ctx.workspaceId model name kind none = some stored.1 ∧
      stored.1.sha256 = sha256 := by
  obtain ⟨_, hcategory, h⟩ := Outcome.bind_ok.mp h
  refine ⟨hcategory, ?_⟩
  cases hactive : activeByName s ctx.workspaceId model name kind none with
  | some existing =>
    simp only [hactive] at h
    split at h
    · rename_i hsha
      cases h
      exact ⟨.refl _, hactive, hsha⟩
    · cases h
  | none =>
    simp only [hactive] at h
    obtain ⟨s', hinsert, h⟩ := Outcome.bind_ok.mp h
    cases h
    obtain ⟨-, hinsert⟩ := Outcome.check_bind_ok.mp hinsert
    obtain ⟨-, hinsert⟩ := Outcome.check_bind_ok.mp hinsert
    cases hinsert
    exact ⟨grown_insert s model _, activeByName_insert hactive, rfl⟩

theorem insertEntry_holds
    (h : insertEntry env ctx model storageKind kind categoryId name data s = .ok (stored, t)) :
    assertCategory ctx s categoryId true = .ok () ∧ Grown s t ∧
      NameHolds env ctx.workspaceId model storageKind kind name data stored.1 t := by
  obtain ⟨middle, hupload, rfl⟩ := insertEntry_ok h
  obtain ⟨hcategory, hgrown, hactive, hsha⟩ := uploadEntry_found hupload
  have hstore := grown_store env middle ctx.workspaceId storageKind data
  exact ⟨hcategory, hgrown.trans hstore, activeByName_grown hstore hactive, hsha,
    read_store middle ctx.workspaceId data⟩

theorem insertEntry_again (hcategory : assertCategory ctx s categoryId true = .ok ())
    (h : NameHolds env ctx.workspaceId model storageKind kind name data row s) :
    insertEntry env ctx model storageKind kind categoryId name data s = .ok ((row, false), s) := by
  obtain ⟨hactive, hsha, hfile⟩ := h
  have hupload : uploadEntry ctx model name (env.sha256 data) data.size kind categoryId s =
      .ok ((row, false), s) := by
    simp only [uploadEntry, hcategory, bind, Except.bind, hactive, hsha, if_true]
  have hstore : s.store env ctx.workspaceId storageKind data = s := by
    unfold State.store ContentStore.write
    rw [if_pos hfile]
  simp only [insertEntry, hupload, bind, Except.bind, pure, Except.pure, hstore]

theorem assertCategory_error
    (h : assertCategory ctx s categoryId changed = .error e) : isNameConflict e = false := by
  cases categoryId with
  | none => cases h
  | some id =>
    rcases Outcome.bind_error h with h | ⟨category, -, h⟩
    · rw [Outcome.orRaise_error h]
      rfl
    · rw [Outcome.check_error h]
      rfl

theorem insertEntry_conflict
    (h : insertEntry env ctx model storageKind kind categoryId name data s = .error e)
    (hconflict : isNameConflict e = true) :
    assertCategory ctx s categoryId true = .ok () ∧ ∃ existing,
      activeByName s ctx.workspaceId model name kind none = some existing ∧
      existing.sha256 ≠ env.sha256 data := by
  rcases Outcome.bind_error h with h | ⟨_, -, h⟩
  · rcases Outcome.bind_error h with h | ⟨_, hcategory, h⟩
    · rw [assertCategory_error h] at hconflict
      cases hconflict
    · refine ⟨hcategory, ?_⟩
      cases hactive : activeByName s ctx.workspaceId model name kind none with
      | some existing =>
        simp only [hactive] at h
        split at h
        · cases h
        · rename_i hsha
          exact ⟨existing, rfl, hsha⟩
      | none =>
        simp only [hactive] at h
        rcases Outcome.bind_error h with h | ⟨_, -, h⟩
        · rcases Outcome.bind_error h with h | ⟨_, -, h⟩
          · rw [Outcome.check_error h] at hconflict
            cases hconflict
          · rcases Outcome.bind_error h with h | ⟨_, -, h⟩
            · rw [Outcome.check_error h] at hconflict
              cases hconflict
            · cases h
        · cases h
  · cases h

theorem insertEntry_refused {existing : Entry}
    (hcategory : assertCategory ctx s categoryId true = .ok ())
    (hactive : activeByName s ctx.workspaceId model name kind none = some existing)
    (hsha : existing.sha256 ≠ env.sha256 data) :
    insertEntry env ctx model storageKind kind categoryId name data s =
      .error (nameConflict model existing) := by
  have hupload : uploadEntry ctx model name (env.sha256 data) data.size kind categoryId s =
      .error (nameConflict model existing) := by
    simp only [uploadEntry, hcategory, bind, Except.bind, hactive, hsha, if_false]
  simp only [insertEntry, hupload, bind, Except.bind]

/-- The row found again. -/
def foundAgain (stored : Entry × Bool) : Entry × Bool := (stored.1, false)

def Landed (env : Env) (workspaceId : Uuid) (model : Model) (storageKind : StorageKind)
    (kind : Option DatafileKind) (render : Text → Except EdaError ByteArray) (names : List Text)
    (stored : Entry × Bool) (s : State) : Prop :=
  ∃ name ∈ names, ∃ data, render name = .ok data ∧
    NameHolds env workspaceId model storageKind kind name data stored.1 s

theorem insertEntry_later
    (h : insertEntry env ctx model storageKind kind categoryId name data s = .ok (stored, t))
    (hworkspace : ctx'.workspaceId = ctx.workspaceId) (hgrown : Grown t t') :
    insertEntry env ctx' model storageKind kind categoryId name data t' =
      .ok (foundAgain stored, t') := by
  obtain ⟨hcategory, hgrown', hholds⟩ := insertEntry_holds h
  have hcategory' : assertCategory ctx' t' categoryId true = .ok () := by
    rw [assertCategory_grown hworkspace (hgrown'.trans hgrown), hcategory]
  exact insertEntry_again hcategory' (hworkspace ▸ hholds.grown hgrown)

theorem insertEntry_conflict_later
    (h : insertEntry env ctx model storageKind kind categoryId name data s = .error e)
    (hconflict : isNameConflict e = true) (hworkspace : ctx'.workspaceId = ctx.workspaceId)
    (hgrown : Grown s t') :
    ∃ e', insertEntry env ctx' model storageKind kind categoryId name data t' = .error e' ∧
      isNameConflict e' = true := by
  obtain ⟨hcategory, existing, hactive, hsha⟩ := insertEntry_conflict h hconflict
  have hcategory' : assertCategory ctx' t' categoryId true = .ok () := by
    rw [assertCategory_grown hworkspace hgrown, hcategory]
  have hactive' := activeByName_grown hgrown hactive
  exact ⟨_, insertEntry_refused hcategory' (hworkspace ▸ hactive') hsha, rfl⟩

/-- What was stored under the first free name is found again in every later library. -/
theorem storeCandidates_again {later : List Text} {stored : Option (Entry × Bool)}
    (h : storeCandidates render (insertEntry env ctx model storageKind kind categoryId) name later
      s =
      .ok (stored, t)) :
    Grown s t ∧
      (∀ row ∈ stored, Landed env ctx.workspaceId model storageKind kind render (name :: later)
        row t) ∧
      ∀ ctx' t', ctx'.workspaceId = ctx.workspaceId → Grown t t' →
        storeCandidates render (insertEntry env ctx' model storageKind kind categoryId) name later
          t' = .ok (stored.map foundAgain, t') := by
  induction later generalizing name with
  | nil =>
    rw [storeCandidates] at h
    obtain ⟨data, hrender, h⟩ := Outcome.bind_ok.mp h
    cases data with
    | none =>
      cases h
      refine ⟨.refl _, by simp, fun ctx' t' _ _ => ?_⟩
      rw [storeCandidates, hrender]
      rfl
    | some data =>
      cases hinsert : insertEntry env ctx model storageKind kind categoryId name data s with
      | error e =>
        simp only [hinsert] at h
        cases h
      | ok inserted =>
        simp only [hinsert] at h
        cases h
        obtain ⟨-, hgrown, hholds⟩ := insertEntry_holds hinsert
        refine ⟨hgrown, fun row hrow => ?_, fun ctx' t' hworkspace hlater => ?_⟩
        · cases hrow
          exact ⟨name, List.mem_cons_self, data, rendered_ok hrender, hholds⟩
        · rw [storeCandidates, hrender]
          simp only [bind, Except.bind, insertEntry_later hinsert hworkspace hlater,
            Option.map_some]
  | cons next later ih =>
    rw [storeCandidates] at h
    obtain ⟨data, hrender, h⟩ := Outcome.bind_ok.mp h
    cases data with
    | none =>
      cases h
      refine ⟨.refl _, by simp, fun ctx' t' _ _ => ?_⟩
      rw [storeCandidates, hrender]
      rfl
    | some data =>
      cases hinsert : insertEntry env ctx model storageKind kind categoryId name data s with
      | error e =>
        simp only [hinsert] at h
        split at h
        · rename_i hconflict
          obtain ⟨hgrown, hlanded, hagain⟩ := ih h
          refine ⟨hgrown, fun row hrow => ?_, fun ctx' t' hworkspace hlater => ?_⟩
          · obtain ⟨candidate, hmem, hrest⟩ := hlanded row hrow
            exact ⟨candidate, List.mem_cons_of_mem _ hmem, hrest⟩
          · -- the name that was refused is still held by other content
            obtain ⟨e', hinsert', hconflict'⟩ := insertEntry_conflict_later hinsert hconflict
              hworkspace (hgrown.trans hlater)
            rw [storeCandidates, hrender]
            simp only [bind, Except.bind, hinsert', hconflict', if_true]
            exact hagain ctx' t' hworkspace hlater
        · cases h
      | ok inserted =>
        simp only [hinsert] at h
        cases h
        obtain ⟨-, hgrown, hholds⟩ := insertEntry_holds hinsert
        refine ⟨hgrown, fun row hrow => ?_, fun ctx' t' hworkspace hlater => ?_⟩
        · cases hrow
          exact ⟨name, List.mem_cons_self, data, rendered_ok hrender, hholds⟩
        · rw [storeCandidates, hrender]
          simp only [bind, Except.bind, insertEntry_later hinsert hworkspace hlater,
            Option.map_some]

end Storing

def CreatedRow.again (row : CreatedRow) : CreatedRow := { row with created := false }

theorem createdRow_foundAgain (stored : Entry × Bool) :
    createdRow (foundAgain stored) = (createdRow stored).again := rfl

def refound (stored : List (Option CreatedRow)) : List (Option CreatedRow) :=
  stored.map (Option.map CreatedRow.again)

def refusals {α : Type} (name : α → Text) (pending : List α) (stored : List (Option CreatedRow)) :
    List Skipped :=
  (pending.zip stored).filterMap fun entry =>
    if entry.2 = none then some (skip (name entry.1) skipInvalidEntry) else none

theorem refusals_refound {α : Type} (name : α → Text) (pending : List α)
    (stored : List (Option CreatedRow)) :
    refusals name pending (refound stored) = refusals name pending stored := by
  induction pending generalizing stored with
  | nil => rfl
  | cons first rest ih =>
    cases stored with
    | nil => rfl
    | cons row rows =>
      have hrest := ih rows
      unfold refusals refound at hrest ⊢
      cases row <;> simp [hrest]

theorem reduceOption_refound (stored : List (Option CreatedRow)) :
    (refound stored).reduceOption = stored.reduceOption.map CreatedRow.again := by
  induction stored with
  | nil => rfl
  | cons row rows ih =>
    unfold refound at ih ⊢
    cases row <;> simp [ih]

def modelOf (env : Env) (pending : PendingDatafile) (row : CreatedRow) :
    Option (Text × CreatedRow) :=
  if pending.kind = .spice then none else some (env.fold (stemOf pending.name), row)

def modelsOf (env : Env) (pending : List PendingDatafile) (stored : List (Option CreatedRow)) :
    ModelsByStem :=
  (pending.zip stored).filterMap fun entry => entry.2.bind (modelOf env entry.1)

def ModelsByStem.again (models : ModelsByStem) : ModelsByStem :=
  models.map fun model => (model.1, model.2.again)

theorem modelsOf_refound (env : Env) (pending : List PendingDatafile)
    (stored : List (Option CreatedRow)) :
    modelsOf env pending (refound stored) = ModelsByStem.again (modelsOf env pending stored) := by
  induction pending generalizing stored with
  | nil => rfl
  | cons first rest ih =>
    cases stored with
    | nil => rfl
    | cons row rows =>
      have hrest := ih rows
      unfold modelsOf refound ModelsByStem.again at hrest ⊢
      cases row with
      | none => simpa using hrest
      | some row =>
        by_cases hspice : first.kind = .spice
        · simpa [modelOf, hspice] using hrest
        · simpa [modelOf, hspice] using hrest

/-- The data file's own row. -/
def FiledAs (env : Env) (workspaceId : Uuid) (pending : PendingDatafile) (row : CreatedRow)
    (t : State) : Prop :=
  ∃ entry ∈ t.datafiles, entry.id = row.id ∧ entry.name = row.name ∧
    entry.sha256 = row.sha256 ∧ entry.kind = row.kind ∧ entry.workspaceId = workspaceId ∧
    entry.archivedAt = none ∧ entry.kind = some pending.kind ∧
    entry.sha256 = env.sha256 pending.data

theorem FiledAs.grown {env : Env} {workspaceId : Uuid}
    {row : CreatedRow} {s t : State} (h : FiledAs env workspaceId pending row s)
    (hgrown : Grown s t) : FiledAs env workspaceId pending row t := by
  obtain ⟨entry, hmem, hrest⟩ := h
  exact ⟨entry, (hgrown.rows .datafile).subset hmem, hrest⟩

theorem validatedDatafile_ok {kind : DatafileKind} {raw data : ByteArray}
    (h : validatedDatafile kind raw = .ok data) : data = raw := by
  cases kind with
  | step =>
    obtain ⟨-, h⟩ := Outcome.check_bind_ok.mp h
    cases h
    rfl
  | wrl =>
    obtain ⟨-, h⟩ := Outcome.check_bind_ok.mp h
    cases h
    rfl
  | spice =>
    obtain ⟨_, -, h⟩ := Outcome.bind_ok.mp h
    cases h
    rfl

section Datafiles

variable {env : Env} {ctx : Ctx} {s t : State}

theorem importDatafile_again {stored : Option (Entry × Bool)}
    (h : importDatafile env ctx pending s = .ok (stored, t)) :
    Grown s t ∧
      (∀ row ∈ stored, FiledAs env ctx.workspaceId pending (createdRow row) t) ∧
      ∀ ctx' t', ctx'.workspaceId = ctx.workspaceId → Grown t t' →
        importDatafile env ctx' pending t' = .ok (stored.map foundAgain, t') := by
  obtain ⟨hgrown, hlanded, hagain⟩ := storeCandidates_again h
  refine ⟨hgrown, fun row hrow => ?_, hagain⟩
  obtain ⟨name, -, data, hrender, hactive, hsha, -⟩ := hlanded row hrow
  obtain rfl := validatedDatafile_ok hrender
  have hmem := List.mem_of_find?_eq_some hactive
  have hrow : row.1.workspaceId = ctx.workspaceId ∧ row.1.archivedAt = none ∧ row.1.name = name ∧
      (Model.datafile = .datafile → row.1.kind = some pending.kind) ∧ some row.1.id ≠ none := by
    simpa using List.find?_some hactive
  obtain ⟨hworkspace, harchived, -, hkind, -⟩ := hrow
  exact ⟨row.1, hmem, rfl, rfl, rfl, rfl, hworkspace, harchived, hkind rfl, hsha⟩

def datafilesResult (pending : List PendingDatafile) (stored : List (Option CreatedRow))
    (result : ImportResult) : ImportResult :=
  { result with
    datafiles := result.datafiles ++ stored.reduceOption
    skipped := result.skipped ++ refusals PendingDatafile.name pending stored }

theorem importDatafiles_again {pending : List PendingDatafile}
    (h : importDatafiles env ctx pending result models s = .ok (after, models', t)) :
    ∃ stored, stored.length = pending.length ∧ after = datafilesResult pending stored result ∧
      models' = models ++ modelsOf env pending stored ∧ Grown s t ∧
      (∀ p row, (p, some row) ∈ pending.zip stored → FiledAs env ctx.workspaceId p row t) ∧
      ∀ ctx' t' result' models'', ctx'.workspaceId = ctx.workspaceId → Grown t t' →
        importDatafiles env ctx' pending result' models'' t' =
          .ok (datafilesResult pending (refound stored) result',
            models'' ++ modelsOf env pending (refound stored), t') := by
  induction pending generalizing ctx result models s with
  | nil =>
    cases h
    refine ⟨[], rfl, by simp [datafilesResult, refusals], by simp [modelsOf], .refl _, by simp,
      fun ctx' t' result' models'' _ _ => ?_⟩
    simp [importDatafiles, datafilesResult, refusals, modelsOf, refound]
  | cons first rest ih =>
    rw [importDatafiles] at h
    obtain ⟨⟨row, middle⟩, hfirst, h⟩ := Outcome.bind_ok.mp h
    obtain ⟨hgrown, hfiled, hagain⟩ := importDatafile_again hfirst
    cases row with
    | none =>
      obtain ⟨stored, hlength, rfl, rfl, hgrown', hfiled', hagain'⟩ := ih h
      refine ⟨none :: stored, by simp [hlength], ?_, by simp [modelsOf],
        hgrown.trans hgrown', ?_, ?_⟩
      · simp [datafilesResult, refusals]
      · intro p row hmem
        rcases List.mem_cons.mp hmem with heq | hmem
        · cases heq
        · exact hfiled' p row hmem
      · intro ctx' t' result' models'' hworkspace hlater
        have hnow := hagain (ctx'.child 0) t' hworkspace (hgrown'.trans hlater)
        have hthen := hagain' (ctx'.child 1) t'
          { result' with skipped := result'.skipped ++ [skip first.name skipInvalidEntry] }
          models'' hworkspace hlater
        rw [importDatafiles, hnow]
        simp only [bind, Except.bind, Option.map_none, hthen]
        simp [datafilesResult, refusals, refound, modelsOf]
    | some row =>
      obtain ⟨stored, hlength, rfl, rfl, hgrown', hfiled', hagain'⟩ := ih h
      refine ⟨some (createdRow row) :: stored, by simp [hlength], ?_, ?_,
        hgrown.trans hgrown', ?_, ?_⟩
      · simp [datafilesResult, refusals]
      · by_cases hspice : first.kind = .spice
        · simp [modelsOf, modelOf, hspice]
        · simp [modelsOf, modelOf, hspice]
      · intro p made hmem
        rcases List.mem_cons.mp hmem with heq | hmem
        · cases heq
          exact (hfiled row rfl).grown hgrown'
        · exact hfiled' p made hmem
      · intro ctx' t' result' models'' hworkspace hlater
        have hnow := hagain (ctx'.child 0) t' hworkspace (hgrown'.trans hlater)
        rw [importDatafiles, hnow]
        simp only [bind, Except.bind, Option.map_some, createdRow_foundAgain]
        rw [hagain' (ctx'.child 1) t' _ _ hworkspace hlater]
        by_cases hspice : first.kind = .spice
        · simp [datafilesResult, refusals, refound, modelsOf, modelOf, hspice]
        · simp [datafilesResult, refusals, refound, modelsOf, modelOf, hspice]

end Datafiles

section Frames

variable {env : Env} {ctx : Ctx} {model other : Model} {categoryId : Option Uuid} {s t : State}

theorem insertEntry_rows {storageKind : StorageKind} {kind : Option DatafileKind}
    (hother : other ≠ model)
    (h : insertEntry env ctx model storageKind kind categoryId name data s = .ok (stored, t)) :
    t.rows other = s.rows other := by
  obtain ⟨middle, hupload, rfl⟩ := insertEntry_ok h
  rw [State.rows_store]
  obtain ⟨-, ⟨rfl, -⟩ | ⟨-, -, -, rfl⟩⟩ := uploadEntry_ok hupload
  · rfl
  · exact s.rows_setRows_of_ne hother _

theorem storeEntry_rows {storageKind : StorageKind} {kind : Option DatafileKind}
    {stored : Option (Entry × Bool)}
    (hother : other ≠ model)
    (h : storeEntry env ctx model storageKind kind categoryId name render s = .ok (stored, t)) :
    t.rows other = s.rows other := by
  obtain ⟨-, rfl⟩ | ⟨candidate, -, data, row, -, -, hinsert⟩ := storeCandidates_ok h
  · rfl
  · exact insertEntry_rows hother hinsert

theorem importDatafiles_rows {pending : List PendingDatafile} (hother : other ≠ .datafile)
    (h : importDatafiles env ctx pending result models s = .ok (after, models', t)) :
    t.rows other = s.rows other := by
  induction pending generalizing ctx result models s with
  | nil =>
    cases h
    rfl
  | cons first rest ih =>
    rw [importDatafiles] at h
    obtain ⟨⟨row, middle⟩, hfirst, h⟩ := Outcome.bind_ok.mp h
    have hmiddle := storeEntry_rows hother hfirst
    cases row with
    | none => exact (ih h).trans hmiddle
    | some row => exact (ih h).trans hmiddle

theorem linkModels_links {footprintId : Uuid} {models : List CreatedRow}
    (h : linkModels ctx footprintId models s = .ok t) : ∃ links, t = { s with links := links } := by
  refine Outcome.foldlM_ok_induction (P := fun m => ∃ links, m = { s with links := links }) ?_
    ⟨s.links, rfl⟩ h
  intro linked _ middle later hmiddle hlater
  obtain ⟨links, rfl⟩ := hmiddle
  obtain ⟨⟨footprint, later'⟩, hlink, hret⟩ := Outcome.bind_ok.mp hlater
  obtain rfl := Outcome.pure_ok.mp hret
  obtain ⟨_, -, hlink⟩ := Outcome.bind_ok.mp hlink
  obtain ⟨_, -, hlink⟩ := Outcome.bind_ok.mp hlink
  obtain ⟨-, hlink⟩ := Outcome.check_bind_ok.mp hlink
  obtain ⟨-, rfl⟩ := Prod.mk.inj (Outcome.pure_ok.mp hlink)
  exact ⟨_, rfl⟩

theorem importFootprint_frame {pending : PendingFootprint}
    (h : importFootprint env ctx categoryId models pending result s = .ok (after, t)) :
    Grown s t ∧ ∀ other, other ≠ .footprint → t.rows other = s.rows other := by
  obtain ⟨⟨stored, middle⟩, hstored, h⟩ := Outcome.bind_ok.mp h
  have hgrown := (storeCandidates_again hstored).1
  cases stored with
  | none =>
    obtain ⟨-, rfl⟩ := Prod.mk.inj (Outcome.pure_ok.mp h)
    exact ⟨hgrown, fun other hother => storeEntry_rows hother hstored⟩
  | some stored =>
    obtain ⟨linked, hlinked, hret⟩ := Outcome.bind_ok.mp h
    obtain ⟨-, rfl⟩ := Prod.mk.inj (Outcome.pure_ok.mp hret)
    obtain ⟨links, rfl⟩ := linkModels_links hlinked
    refine ⟨hgrown.trans (grown_links middle links), fun other hother => ?_⟩
    rw [State.rows_links, storeEntry_rows hother hstored]

theorem importFootprints_frame {pending : List PendingFootprint}
    (h : importFootprints env ctx categoryId models pending result s = .ok (after, t)) :
    Grown s t ∧ ∀ other, other ≠ .footprint → t.rows other = s.rows other := by
  induction pending generalizing ctx result s with
  | nil =>
    cases h
    exact ⟨.refl _, fun _ _ => rfl⟩
  | cons first rest ih =>
    obtain ⟨⟨result', middle⟩, hfirst, h⟩ := Outcome.bind_ok.mp h
    obtain ⟨hgrown, hrows⟩ := importFootprint_frame hfirst
    obtain ⟨hgrown', hrows'⟩ := ih h
    exact ⟨hgrown.trans hgrown', fun other hother =>
      (hrows' other hother).trans (hrows other hother)⟩

theorem importSymbols_frame {pending : List PendingSymbol}
    (h : importSymbols env ctx categoryId pending result s = .ok (after, t)) :
    Grown s t ∧ ∀ other, other ≠ .symbol → t.rows other = s.rows other := by
  induction pending generalizing ctx result s with
  | nil =>
    cases h
    exact ⟨.refl _, fun _ _ => rfl⟩
  | cons first rest ih =>
    obtain ⟨⟨stored, middle⟩, hstored, h⟩ := Outcome.bind_ok.mp h
    have hgrown := (storeCandidates_again hstored).1
    obtain ⟨hgrown', hrows'⟩ := ih h
    exact ⟨hgrown.trans hgrown', fun other hother =>
      (hrows' other hother).trans (storeEntry_rows hother hstored)⟩

end Frames

end StockManager.Eda
