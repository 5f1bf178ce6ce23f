import StockManager.Effects.ImportRuns

/-! # Where the entries of a plan end

Under a name stands the content of its active row, if it has one. An entry goes to the first of
its names under which no other content stands, unless it is refused on the way there. -/

namespace StockManager.Eda

open Sexpr (Text Node)

variable {name : Text} {stored : Entry × Bool} {data : ByteArray}
  {render : Text → Except EdaError ByteArray} {later : List Text}
variable {outcome : Except EdaError ByteArray} {d : DatafileKind} {pending : List PendingDatafile}
  {result after : ImportResult} {models models' : ModelsByStem}

/-- The digest of what stands under a name. -/
abbrev Shelf : Type := Text → Option Text

def shelfOf (s : State) (workspaceId : Uuid) (model : Model) (kind : Option DatafileKind) : Shelf :=
  fun name => (activeByName s workspaceId model name kind none).map (·.sha256)

/-- Other content stands under the name. -/
def Shelf.Blocks (shelf : Shelf) (name digest : Text) : Prop :=
  shelf name ≠ none ∧ shelf name ≠ some digest

instance (shelf : Shelf) (name digest : Text) : Decidable (shelf.Blocks name digest) :=
  inferInstanceAs (Decidable (_ ∧ _))

/-- The first name under which the content can stand. -/
def Shelf.place (shelf : Shelf) (digest : Text) (names : List Text) : Option Text :=
  names.find? fun name => ¬shelf.Blocks name digest

def Shelf.put (shelf : Shelf) (name digest : Text) : Shelf :=
  fun other => if other = name then some digest else shelf other

/-- An entry is refused under a name that it comes to. -/
def Refused (env : Env) (shelf : Shelf) (render : Text → Except EdaError ByteArray) :
    List Text → Prop
  | [] => False
  | name :: later => rendered (render name) = .ok none ∨
      (∃ data, render name = .ok data ∧ shelf.Blocks name (env.sha256 data)) ∧
        Refused env shelf render later

theorem not_ok_of_refused {env : Env} {shelf : Shelf}
    {names : List Text} (h : Refused env shelf (fun _ => outcome) names) (data : ByteArray) :
    outcome ≠ .ok data := by
  rintro rfl
  induction names with
  | nil => exact h
  | cons name later ih =>
    rcases h with h | ⟨-, h⟩
    · cases h
    · exact ih h

theorem rendered_none (h : rendered outcome = .ok none) : ∃ e, outcome = .error e := by
  cases outcome with
  | error e => exact ⟨e, rfl⟩
  | ok data => cases h

section Slots

variable {env : Env} {ctx : Ctx} {model : Model} {storageKind : StorageKind}
  {kind : Option DatafileKind} {categoryId : Option Uuid} {s t : State}

theorem uploadEntry_created {name sha256 : Text} {sizeBytes : ℕ}
    (h : uploadEntry ctx model name sha256 sizeBytes kind categoryId s = .ok (stored, t)) :
    stored.2 = decide (shelfOf s ctx.workspaceId model kind name = none) := by
  obtain ⟨_, -, h⟩ := Outcome.bind_ok.mp h
  unfold shelfOf
  cases hactive : activeByName s ctx.workspaceId model name kind none with
  | some existing =>
    simp only [hactive] at h
    split at h
    · cases h
      rfl
    · cases h
  | none =>
    simp only [hactive] at h
    obtain ⟨s', -, h⟩ := Outcome.bind_ok.mp h
    cases h
    rfl

theorem insertEntry_shelf
    (h : insertEntry env ctx model storageKind kind categoryId name data s = .ok (stored, t)) :
    stored.1.name = name ∧
      ¬(shelfOf s ctx.workspaceId model kind).Blocks name (env.sha256 data) ∧
      shelfOf t ctx.workspaceId model kind name = some (env.sha256 data) := by
  obtain ⟨-, -, hactive', hsha', -⟩ := insertEntry_holds h
  have hname : stored.1.name = name := by
    have hfound := List.find?_some hactive'
    rw [decide_eq_true_eq] at hfound
    exact hfound.2.2.1
  have hleft : shelfOf t ctx.workspaceId model kind name = some (env.sha256 data) := by
    rw [shelfOf, hactive', Option.map_some, hsha']
  obtain ⟨middle, hupload, rfl⟩ := insertEntry_ok h
  refine ⟨hname, ?_, hleft⟩
  rintro ⟨hsome, hother⟩
  obtain ⟨-, ⟨rfl, hactive⟩ | ⟨hfree, -⟩⟩ := uploadEntry_ok hupload
  · exact hother (by rw [shelfOf, hactive, Option.map_some, hsha'])
  · exact hsome (by rw [shelfOf, hfree, Option.map_none])

theorem insertEntry_shelf_other {kind' : Option DatafileKind} {name other : Text}
    (hother : ¬((model = .datafile → kind' = kind) ∧ other = name))
    (h : insertEntry env ctx model storageKind kind categoryId name data s = .ok (stored, t)) :
    shelfOf t ctx.workspaceId model kind' other = shelfOf s ctx.workspaceId model kind' other := by
  obtain ⟨middle, hupload, rfl⟩ := insertEntry_ok h
  obtain ⟨-, ⟨rfl, -⟩ | ⟨-, hrow, -, rfl⟩⟩ := uploadEntry_ok hupload
  · rw [shelfOf, shelfOf, activeByName, activeByName, State.rows_store]
  · rw [shelfOf, shelfOf, activeByName, activeByName, State.rows_store, State.rows_setRows,
      List.find?_append, hrow]
    have hnone : [newEntry ctx model name (env.sha256 data) data.size kind categoryId].find?
        (fun r => r.workspaceId = ctx.workspaceId ∧ r.archivedAt = none ∧ r.name = other ∧
          (model = .datafile → r.kind = kind') ∧ some r.id ≠ none) = none := by
      rw [List.find?_singleton, if_neg]
      rw [decide_eq_true_eq]
      rintro ⟨-, -, hname, hkind, -⟩
      refine hother ⟨fun hmodel => ?_, hname.symm⟩
      rw [← hkind hmodel]
      exact if_pos hmodel
    rw [hnone, Option.or_none]

theorem insertEntry_blocked {e : EdaError}
    (h : insertEntry env ctx model storageKind kind categoryId name data s = .error e)
    (hconflict : isNameConflict e = true) :
    (shelfOf s ctx.workspaceId model kind).Blocks name (env.sha256 data) := by
  obtain ⟨-, existing, hactive, hsha⟩ := insertEntry_conflict h hconflict
  rw [Shelf.Blocks, shelfOf, hactive, Option.map_some]
  exact ⟨Option.some_ne_none _, fun heq => hsha (Option.some.inj heq)⟩

/-- The name the walk comes to, with the digest of the entry under it. -/
def Shelf.walk (env : Env) (shelf : Shelf) (render : Text → Except EdaError ByteArray) :
    List Text → Option (Text × Text)
  | [] => none
  | name :: later =>
    match render name with
    | .error _ => none
    | .ok data =>
      if shelf.Blocks name (env.sha256 data) then shelf.walk env render later
      else some (name, env.sha256 data)

def Shelf.filed (shelf : Shelf) (slot : Option (Text × Text)) : Shelf :=
  slot.elim shelf fun slot => shelf.put slot.1 slot.2

theorem insertEntry_walk (later : List Text) (hrender : render name = .ok data)
    (h : insertEntry env ctx model storageKind kind categoryId name data s = .ok (stored, t)) :
    (shelfOf s ctx.workspaceId model kind).walk env render (name :: later) =
        some (stored.1.name, stored.1.sha256) ∧
      shelfOf t ctx.workspaceId model kind =
        (shelfOf s ctx.workspaceId model kind).put stored.1.name stored.1.sha256 := by
  obtain ⟨hname, hfree, hleft⟩ := insertEntry_shelf h
  obtain ⟨-, -, -, hsha, -⟩ := insertEntry_holds h
  constructor
  · rw [Shelf.walk, hrender]
    simp only
    rw [if_neg hfree, hname, hsha]
  · funext other
    unfold Shelf.put
    split
    · rename_i hother
      rw [hother, hname, hleft, hsha]
    · rename_i hother
      refine insertEntry_shelf_other ?_ h
      rintro ⟨-, hsame⟩
      exact hother (hsame.trans hname.symm)

theorem storeCandidates_walk {stored : Option (Entry × Bool)}
    (h : storeCandidates render (insertEntry env ctx model storageKind kind categoryId) name later
      s = .ok (stored, t)) :
    (shelfOf s ctx.workspaceId model kind).walk env render (name :: later) =
        stored.map (fun row => (row.1.name, row.1.sha256)) ∧
      shelfOf t ctx.workspaceId model kind = (shelfOf s ctx.workspaceId model kind).filed
        (stored.map fun row => (row.1.name, row.1.sha256)) := by
  induction later generalizing name with
  | nil =>
    rw [storeCandidates] at h
    obtain ⟨data, hrender, h⟩ := Outcome.bind_ok.mp h
    cases data with
    | none =>
      cases h
      obtain ⟨e, he⟩ := rendered_none hrender
      refine ⟨?_, rfl⟩
      rw [Shelf.walk, he]
      rfl
    | some data =>
      cases hinsert : insertEntry env ctx model storageKind kind categoryId name data s with
      | error e =>
        simp only [hinsert] at h
        cases h
      | ok inserted =>
        simp only [hinsert] at h
        cases h
        exact insertEntry_walk [] (rendered_ok hrender) hinsert
  | cons next later ih =>
    rw [storeCandidates] at h
    obtain ⟨data, hrender, h⟩ := Outcome.bind_ok.mp h
    cases data with
    | none =>
      cases h
      obtain ⟨e, he⟩ := rendered_none hrender
      refine ⟨?_, rfl⟩
      rw [Shelf.walk, he]
      rfl
    | some data =>
      cases hinsert : insertEntry env ctx model storageKind kind categoryId name data s with
      | error e =>
        simp only [hinsert] at h
        split at h
        · rename_i hconflict
          obtain ⟨hwalk, hfiled⟩ := ih h
          refine ⟨?_, hfiled⟩
          rw [Shelf.walk, rendered_ok hrender]
          simp only
          rw [if_pos (insertEntry_blocked hinsert hconflict), hwalk]
        · cases h
      | ok inserted =>
        simp only [hinsert] at h
        cases h
        exact insertEntry_walk (next :: later) (rendered_ok hrender) hinsert

theorem storeCandidates_refused {stored : Option (Entry × Bool)}
    (h : storeCandidates render (insertEntry env ctx model storageKind kind categoryId) name later
      s = .ok (stored, t)) :
    stored = none ↔ Refused env (shelfOf s ctx.workspaceId model kind) render (name :: later) := by
  induction later generalizing name with
  | nil =>
    rw [storeCandidates] at h
    obtain ⟨data, hrender, h⟩ := Outcome.bind_ok.mp h
    cases data with
    | none =>
      cases h
      exact iff_of_true rfl (.inl hrender)
    | some data =>
      cases hinsert : insertEntry env ctx model storageKind kind categoryId name data s with
      | error e =>
        simp only [hinsert] at h
        cases h
      | ok inserted =>
        simp only [hinsert] at h
        cases h
        refine iff_of_false (Option.some_ne_none _) ?_
        rintro (hrefused | ⟨-, hrefused⟩)
        · rw [hrender] at hrefused
          cases hrefused
        · exact hrefused
  | cons next later ih =>
    rw [storeCandidates] at h
    obtain ⟨data, hrender, h⟩ := Outcome.bind_ok.mp h
    cases data with
    | none =>
      cases h
      exact iff_of_true rfl (.inl hrender)
    | some data =>
      have hdata := rendered_ok hrender
      have hcome : Refused env (shelfOf s ctx.workspaceId model kind) render (name :: next :: later) ↔
          (shelfOf s ctx.workspaceId model kind).Blocks name (env.sha256 data) ∧
            Refused env (shelfOf s ctx.workspaceId model kind) render (next :: later) := by
        constructor
        · rintro (hrefused | ⟨⟨data', hdata', hblocks⟩, hrefused⟩)
          · rw [hrender] at hrefused
            cases hrefused
          · obtain rfl := Outcome.ok_unique hdata hdata'
            exact ⟨hblocks, hrefused⟩
        · exact fun h => .inr ⟨⟨data, hdata, h.1⟩, h.2⟩
      rw [hcome]
      cases hinsert : insertEntry env ctx model storageKind kind categoryId name data s with
      | error e =>
        simp only [hinsert] at h
        split at h
        · rename_i hconflict
          rw [ih h]
          exact (and_iff_right (insertEntry_blocked hinsert hconflict)).symm
        · cases h
      | ok inserted =>
        simp only [hinsert] at h
        cases h
        exact iff_of_false (Option.some_ne_none _) fun hrefused =>
          (insertEntry_shelf hinsert).2.1 hrefused.1

end Slots

section Datafiles

variable {env : Env} {ctx : Ctx} {s t : State}

/-- The digests under the names of each kind. -/
abbrev FileShelves : Type := DatafileKind → Shelf

def fileShelves (s : State) (workspaceId : Uuid) : FileShelves :=
  fun kind => shelfOf s workspaceId .datafile (some kind)

def FileShelves.put (shelves : FileShelves) (kind : DatafileKind) (name digest : Text) :
    FileShelves :=
  fun other => if other = kind then (shelves kind).put name digest else shelves other

/-- The names the importer tries. -/
def candidateNames (name : Text) (keepExtension : Bool) : List Text :=
  name.take nameMax :: suffixedNames name keepExtension

theorem insertEntry_place {storageKind : StorageKind} (later : List Text)
    (h : insertEntry env ctx .datafile storageKind (some d) none name data s = .ok (stored, t)) :
    (fileShelves s ctx.workspaceId d).place (env.sha256 data) (name :: later) =
        some stored.1.name ∧
      fileShelves t ctx.workspaceId =
        (fileShelves s ctx.workspaceId).put d stored.1.name (env.sha256 data) ∧
      createdRow stored = ⟨stored.1.id, stored.1.name,
        decide (fileShelves s ctx.workspaceId d stored.1.name = none), env.sha256 data, some d⟩ := by
  obtain ⟨hname, hfree, hleft⟩ := insertEntry_shelf h
  refine ⟨?_, ?_, ?_⟩
  · rw [Shelf.place, hname, List.find?_cons_of_pos]
    exact decide_eq_true hfree
  · funext kind other
    rw [hname]
    by_cases hplace : kind = d ∧ other = name
    · obtain ⟨rfl, rfl⟩ := hplace
      simp only [FileShelves.put, Shelf.put, if_true]
      exact hleft
    · have hother : ¬((Model.datafile = .datafile → some kind = some d) ∧ other = name) :=
        fun hsame => hplace ⟨Option.some.inj (hsame.1 rfl), hsame.2⟩
      refine (insertEntry_shelf_other hother h).trans ?_
      by_cases hkind : kind = d
      · subst hkind
        have hother : other ≠ name := fun hother => hplace ⟨rfl, hother⟩
        simp only [FileShelves.put, Shelf.put, if_true, if_neg hother]
        rfl
      · simp only [FileShelves.put, if_neg hkind]
        rfl
  · obtain ⟨-, -, hactive, hsha, -⟩ := insertEntry_holds h
    have hfound := List.find?_some hactive
    rw [decide_eq_true_eq] at hfound
    obtain ⟨middle, hupload, -⟩ := insertEntry_ok h
    rw [createdRow, uploadEntry_created hupload, hsha, hfound.2.2.2.1 rfl, hname]
    rfl

/-- An entry goes to the first of its names that is free or holds its content. -/
theorem storeCandidates_place {storageKind : StorageKind} (h : storeCandidates (fun _ => .ok data)
      (insertEntry env ctx .datafile storageKind (some d) none) name later s =
        .ok (some stored, t)) :
    (fileShelves s ctx.workspaceId d).place (env.sha256 data) (name :: later) =
        some stored.1.name ∧
      fileShelves t ctx.workspaceId =
        (fileShelves s ctx.workspaceId).put d stored.1.name (env.sha256 data) ∧
      createdRow stored = ⟨stored.1.id, stored.1.name,
        decide (fileShelves s ctx.workspaceId d stored.1.name = none), env.sha256 data, some d⟩ := by
  induction later generalizing name with
  | nil =>
    rw [storeCandidates] at h
    simp only [rendered, bind, Except.bind] at h
    cases hinsert : insertEntry env ctx .datafile storageKind (some d) none name data s with
    | error e =>
      simp only [hinsert] at h
      cases h
    | ok inserted =>
      simp only [hinsert] at h
      cases h
      exact insertEntry_place [] hinsert
  | cons next later ih =>
    rw [storeCandidates] at h
    simp only [rendered, bind, Except.bind] at h
    cases hinsert : insertEntry env ctx .datafile storageKind (some d) none name data s with
    | error e =>
      simp only [hinsert] at h
      split at h
      · rename_i hconflict
        obtain ⟨hplace, hleft⟩ := ih h
        refine ⟨?_, hleft⟩
        rw [Shelf.place, List.find?_cons_of_neg]
        · exact hplace
        · rw [decide_eq_true_eq, not_not]
          exact insertEntry_blocked hinsert hconflict
      · cases h
    | ok inserted =>
      simp only [hinsert] at h
      cases h
      exact insertEntry_place (next :: later) hinsert

/-- The file passes the check of its kind. -/
def PendingDatafile.Valid (file : PendingDatafile) : Prop :=
  ∃ data, validatedDatafile file.kind file.data = .ok data

theorem importDatafile_slot {file : PendingDatafile} {stored : Option (Entry × Bool)}
    (h : importDatafile env ctx file s = .ok (stored, t)) :
    (stored = none ↔ ¬file.Valid) ∧ ∀ row ∈ stored,
      (fileShelves s ctx.workspaceId file.kind).place (env.sha256 file.data)
          (candidateNames file.name true) = some row.1.name ∧
        fileShelves t ctx.workspaceId =
          (fileShelves s ctx.workspaceId).put file.kind row.1.name (env.sha256 file.data) ∧
        createdRow row = ⟨row.1.id, row.1.name,
          decide (fileShelves s ctx.workspaceId file.kind row.1.name = none),
          env.sha256 file.data, some file.kind⟩ := by
  cases hvalid : validatedDatafile file.kind file.data with
  | error e =>
    have hinvalid : ¬file.Valid := by
      rintro ⟨data, hdata⟩
      rw [hvalid] at hdata
      cases hdata
    obtain ⟨rfl, -⟩ | ⟨candidate, -, data, row, hdata, -⟩ := storeCandidates_ok h
    · exact ⟨iff_of_true rfl hinvalid, fun row hrow => absurd hrow (Option.not_mem_none row)⟩
    · rw [hvalid] at hdata
      cases hdata
  | ok data =>
    obtain rfl := validatedDatafile_ok hvalid
    have hsome : stored ≠ none := fun hnone =>
      not_ok_of_refused ((storeCandidates_refused h).mp hnone) _ hvalid
    refine ⟨iff_of_false hsome fun hinvalid => hinvalid ⟨_, hvalid⟩, fun row hrow => ?_⟩
    cases hrow
    have hwalk : storeCandidates (fun _ => .ok file.data)
        (insertEntry env ctx .datafile (.data file.kind) (some file.kind) none)
        (file.name.take nameMax) (suffixedNames file.name true) s = .ok (some row, t) := by
      rw [← hvalid]
      exact h
    exact storeCandidates_place hwalk

instance (file : PendingDatafile) : Decidable file.Valid :=
  decidable_of_iff ((validatedDatafile file.kind file.data).toOption.isSome = true)
    ⟨Outcome.exists_ok, fun h => by
      obtain ⟨data, hdata⟩ := h
      rw [hdata]
      rfl⟩

/-- The rows of the 3D files of a plan, when its files are filed in order: their ids are left
out. -/
def filedModels (env : Env) (shelves : FileShelves) : List PendingDatafile → ModelsByStem
  | [] => []
  | file :: rest =>
    if file.Valid then
      let digest := env.sha256 file.data
      let shelf := shelves file.kind
      match shelf.place digest (candidateNames file.name true) with
      | none => []
      | some name =>
        (if file.kind = .spice then []
          else [(env.fold (stemOf file.name),
            ⟨0, name, decide (shelf name = none), digest, some file.kind⟩)]) ++
          filedModels env (shelves.put file.kind name digest) rest
    else filedModels env shelves rest

def slotOf (model : Text × CreatedRow) : Text × CreatedRow := (model.1, { model.2 with id := 0 })

theorem importDatafiles_filed
    (h : importDatafiles env ctx pending result models s = .ok (after, models', t)) :
    models'.map slotOf = models.map slotOf ++
      filedModels env (fileShelves s ctx.workspaceId) pending := by
  induction pending generalizing ctx result models s with
  | nil =>
    cases h
    rw [filedModels, List.append_nil]
  | cons file rest ih =>
    rw [importDatafiles] at h
    obtain ⟨⟨stored, middle⟩, hfirst, h⟩ := Outcome.bind_ok.mp h
    obtain ⟨hnone, hplaced⟩ := importDatafile_slot hfirst
    cases stored with
    | none =>
      have hmiddle : middle = s := by
        obtain ⟨-, hsame⟩ | ⟨_, -, _, _, -, hsome, -⟩ := storeCandidates_ok hfirst
        · exact hsame
        · cases hsome
      rw [ih h, filedModels, if_neg (hnone.mp rfl), hmiddle]
      rfl
    | some row =>
      have hvalid : file.Valid := not_not.mp fun hinvalid =>
        Option.some_ne_none _ (hnone.mpr hinvalid)
      obtain ⟨hplace, hleft, hrow⟩ := hplaced row rfl
      have hplace' : (fileShelves s ctx.workspaceId file.kind).place (env.sha256 file.data)
          (candidateNames file.name true) = some row.1.name := hplace
      have hleft' : fileShelves middle (ctx.child 1).workspaceId =
          (fileShelves s ctx.workspaceId).put file.kind row.1.name (env.sha256 file.data) := hleft
      rw [ih h, filedModels, if_pos hvalid, hleft']
      simp only [hplace']
      by_cases hspice : file.kind = .spice
      · simp only [hspice, if_true, List.nil_append]
      · have hslot : slotOf (env.fold (stemOf file.name), createdRow row) =
            (env.fold (stemOf file.name), ⟨0, row.1.name,
              decide (fileShelves s ctx.workspaceId file.kind row.1.name = none),
              env.sha256 file.data, some file.kind⟩) := by
          rw [slotOf, hrow]
          rfl
        simp only [hspice, if_false, List.map_append, List.append_assoc, List.map_cons,
          List.map_nil, hslot]

theorem importDatafiles_skipped
    (h : importDatafiles env ctx pending result models s = .ok (after, models', t)) :
    after.skipped = [] ↔ result.skipped = [] ∧ ∀ file ∈ pending, file.Valid := by
  induction pending generalizing ctx result models s with
  | nil =>
    cases h
    simp
  | cons file rest ih =>
    rw [importDatafiles] at h
    obtain ⟨⟨stored, middle⟩, hfirst, h⟩ := Outcome.bind_ok.mp h
    obtain ⟨hnone, -⟩ := importDatafile_slot hfirst
    cases stored with
    | none =>
      rw [ih h, List.forall_mem_cons]
      exact iff_of_false (fun hall => List.append_ne_nil_of_right_ne_nil _ (List.cons_ne_nil _ _)
        hall.1) fun hall => hnone.mp rfl hall.2.1
    | some row =>
      have hvalid : file.Valid := not_not.mp fun hinvalid =>
        Option.some_ne_none _ (hnone.mpr hinvalid)
      rw [ih h, List.forall_mem_cons]
      exact ⟨fun hall => ⟨hall.1, hvalid, hall.2⟩, fun hall => ⟨hall.1, hall.2.2⟩⟩

end Datafiles

end StockManager.Eda
