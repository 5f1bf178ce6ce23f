import StockManager.Model.McpEda
import StockManager.Properties.ServedEntries

/-! # What `get_part_eda` reports, and what writing it back leaves -/

namespace StockManager

theorem find_row {α : Type} {id : α → Uuid} {rows : List α} {row : α} (h : (rows.map id).Nodup)
    (hrow : row ∈ rows) (p : α → Bool) (hp : p row = true) (hid : ∀ r, p r = true → id r = id row) :
    rows.find? p = some row := by
  obtain ⟨found, hfound⟩ : ∃ found, rows.find? p = some found := by
    rw [← Option.isSome_iff_exists, List.find?_isSome]
    exact ⟨row, hrow, hp⟩
  have hsame := hid found (List.find?_some hfound)
  rw [hfound, List.inj_on_of_nodup_map h (List.mem_of_find?_eq_some hfound) hrow hsame]

end StockManager

namespace StockManager.Eda

open Sexpr (Text)

/-- The primary keys, and the names that are unique while a row is active. -/
structure Keyed (s : State) (catalogue : Catalogue) : Prop where
  entries : ∀ model, ((s.rows model).map (·.id)).Nodup
  names : ∀ model ≠ .datafile, ∀ workspaceId, ((activeRows s workspaceId model).map (·.name)).Nodup
  parts : (catalogue.parts.map (·.id)).Nodup
  configs : (catalogue.partEda.map (·.partId)).Nodup

/-- The slug a library is named after. -/
def folderSlug (slug : Option Text) : Text := (slug.filter (· ≠ [])).getD "uncategorized".toList

/-- The part's category, archived or not, and the entry's active one name one library, and the
entry has a name. -/
def Agrees (s : State) (part : Part) (entry : Entry) : Prop :=
  folderSlug (partSlug s part) = folderSlug (categorySlug s entry) ∧ entry.name ≠ []

section Reported

variable {s : State} {catalogue : Catalogue} {part : Part} {config : PartEda} {workspaceId : Uuid}

theorem entryNameOf_eq (h : Keyed s catalogue) {model : Model} {entry : Entry}
    (hentry : entry ∈ activeRows s workspaceId model) :
    entryNameOf s model (some entry.id) = some entry.name := by
  rw [entryNameOf, Option.bind_some, find_row (h.entries model) (mem_activeRows.mp hentry).1 _
    (by simp) (by simp), Option.map_some]

theorem detailRow_eq (h : Keyed s catalogue) (hpart : part ∈ catalogue.parts)
    (hactive : part.archivedAt = none) :
    detailRow s catalogue part.workspaceId part.id = some (partRow s catalogue part) := by
  have hmem : part ∈ catalogue.parts.filter fun p =>
      p.workspaceId = part.workspaceId ∧ p.archivedAt = none := by
    rw [List.mem_filter]
    exact ⟨hpart, decide_eq_true ⟨rfl, hactive⟩⟩
  have hnodup := h.parts.sublist (List.filter_sublist (p := fun p : Part =>
    decide (p.workspaceId = part.workspaceId ∧ p.archivedAt = none)).map Part.id)
  rw [detailRow, partRows, List.find?_map]
  rw [find_row hnodup hmem _ (by simp [partRow]) (by simp [partRow]), Option.map_some]

theorem config_eq (h : Keyed s catalogue) (hconfig : config ∈ catalogue.partEda)
    (hpart : config.partId = part.id) (hworkspace : config.workspaceId = part.workspaceId) :
    (partRow s catalogue part).config = some config := by
  apply find_row h.configs hconfig _ (by simp [hpart, hworkspace])
  intro other hother
  simp only [decide_eq_true_eq] at hother
  rw [hother.1, hpart]

theorem joinEntry_eq (h : Keyed s catalogue) {model : Model} {entry : Entry}
    (hentry : entry ∈ activeRows s workspaceId model) :
    joinEntry s workspaceId model (some entry.id) = some entry := by
  obtain ⟨hmem, hworkspace, hactive⟩ := mem_activeRows.mp hentry
  apply find_row (h.entries model) hmem _ (by simp [hworkspace, hactive])
  intro other hother
  simp only [decide_eq_true_eq] at hother
  exact Option.some.inj hother.1

/-- The reported reference of a slot is the one made of the entry's own category where the slugs
agree. -/
theorem reported_iff (part : Part) (entry : Entry) :
    ((truthy (some entry.name)).map fun name => entryRef name (partSlug s part)) =
        some (stemNickname (libraryStem s entry) ++ ':' :: entry.name) ↔ Agrees s part entry := by
  have hstem : ∀ slug, libraryNickname slug = pcmNicknamePrefix ++ (libraryPrefix ++ folderSlug slug) :=
    fun _ => rfl
  have hown : stemNickname (libraryStem s entry) =
      pcmNicknamePrefix ++ (libraryPrefix ++ folderSlug (categorySlug s entry)) := rfl
  by_cases hname : entry.name = []
  · simp [truthy, hname, Agrees]
  · have htruthy : truthy (some entry.name) = some entry.name := by simp [truthy, hname]
    rw [htruthy, Option.map_some, Option.some.injEq, entryRef, hstem, hown,
      List.append_left_inj, List.append_right_inj, List.append_right_inj, Agrees]
    exact (and_iff_left hname).symm

theorem row_mem (h : Keyed s catalogue) (hpart : part ∈ catalogue.parts)
    (hactive : part.archivedAt = none) :
    partRow s catalogue part ∈ partRows s catalogue part.workspaceId :=
  List.mem_of_find?_eq_some (detailRow_eq h hpart hactive)

theorem stem_of_name (h : Keyed s catalogue) {model : Model} (hmodel : model ≠ .datafile)
    {entry row : Entry} (hentry : entry ∈ activeRows s workspaceId model)
    (hrow : row ∈ activeRows s workspaceId model) (hname : row.name = entry.name) : row = entry :=
  List.inj_on_of_nodup_map (h.names model hmodel workspaceId) hrow hentry hname

/-- The reported references of a part are the ones served and shipped where the slugs agree. -/
theorem reported_ships_iff (h : Keyed s catalogue) (hpart : part ∈ catalogue.parts)
    (hactive : part.archivedAt = none) (hconfig : config ∈ catalogue.partEda)
    (hof : config.partId = part.id ∧ config.workspaceId = part.workspaceId)
    (collate : Text → Text → Bool) :
    (∀ symbol ∈ activeRows s part.workspaceId .symbol, config.symbolId = some symbol.id →
      truthy config.symbolRefExternal = none →
        (∃ doc, partDetail s catalogue part.workspaceId part.id = some doc ∧
          ((partEdaPayload s part config).symbolRef = some doc.symbolIdStr ↔
            Agrees s part symbol)) ∧
        ∀ plan, planPackage collate s part.workspaceId = .ok plan →
          ∀ e ∈ plan.symbols, e.name = symbol.name →
            ((partEdaPayload s part config).symbolRef = some (stemNickname e.stem ++ ':' :: e.name) ↔
              Agrees s part symbol)) ∧
    (∀ footprint ∈ activeRows s part.workspaceId .footprint,
      config.footprintId = some footprint.id → truthy config.footprintRefExternal = none →
        (∀ doc, partDetail s catalogue part.workspaceId part.id = some doc →
          ((partEdaPayload s part config).footprintRef = doc.footprint ↔
            Agrees s part footprint)) ∧
        ∀ plan, planPackage collate s part.workspaceId = .ok plan →
          ∀ e ∈ plan.footprints, e.name = footprint.name →
            ((partEdaPayload s part config).footprintRef =
                some (stemNickname e.stem ++ ':' :: e.name) ↔ Agrees s part footprint)) := by
  have hrow := row_mem h hpart hactive
  have hfound := config_eq h hconfig hof.1 hof.2
  constructor
  · intro symbol hsymbol hid hexternal
    have hpayload : (partEdaPayload s part config).symbolRef =
        (truthy (some symbol.name)).map fun name => entryRef name (partSlug s part) := by
      rw [partEdaPayload, hid, entryNameOf_eq h hsymbol]
    have hhosted : hostedSymbol (partRow s catalogue part) = some symbol := by
      rw [hostedSymbol, hfound, Option.bind_some, hexternal, if_neg (by simp)]
      show joinEntry s part.workspaceId .symbol ((partRow s catalogue part).config.bind (·.symbolId)) = _
      rw [hfound, Option.bind_some, hid, joinEntry_eq h hsymbol]
    obtain ⟨-, hserved⟩ := hostedSymbol_named hrow hhosted
    rw [hpayload]
    constructor
    · refine ⟨⟨part.id, part.name, _, truthy (footprintRef (partRow s catalogue part))⟩, ?_,
        reported_iff part symbol⟩
      rw [partDetail, detailRow_eq h hpart hactive, Option.bind_some, document, hserved]
      rfl
    · intro plan hplan e he hname
      obtain ⟨row, hmem, -, rfl⟩ := (mem_plan_symbols hplan).mp he
      obtain rfl := stem_of_name h (by decide) hsymbol hmem hname
      exact reported_iff part row
  · intro footprint hfootprint hid hexternal
    have hpayload : (partEdaPayload s part config).footprintRef =
        (truthy (some footprint.name)).map fun name => entryRef name (partSlug s part) := by
      rw [partEdaPayload, hid, entryNameOf_eq h hfootprint]
    have hhosted : hostedFootprint (partRow s catalogue part) = some footprint := by
      rw [hostedFootprint, hfound, Option.bind_some, hexternal, if_neg (by simp)]
      show joinEntry s part.workspaceId .footprint
        ((partRow s catalogue part).config.bind (·.footprintId)) = _
      rw [hfound, Option.bind_some, hid, joinEntry_eq h hfootprint]
    obtain ⟨-, hserved⟩ := hostedFootprint_named hrow hhosted
    rw [hpayload]
    constructor
    · intro doc hdoc
      rw [partDetail, detailRow_eq h hpart hactive, Option.bind_some, document,
        Option.map_eq_some_iff] at hdoc
      obtain ⟨_, -, rfl⟩ := hdoc
      have hfield : truthy (footprintRef (partRow s catalogue part)) =
          some (stemNickname (libraryStem s footprint) ++ ':' :: footprint.name) := by
        rw [hserved]
        rfl
      rw [hfield]
      exact reported_iff part footprint
    · intro plan hplan e he hname
      obtain ⟨row, hmem, -, rfl⟩ := (mem_plan_footprints hplan).mp he
      obtain rfl := stem_of_name h (by decide) hfootprint hmem hname
      exact reported_iff part row

end Reported

def regulators : PartCategory := ⟨5, 1, "Regulators".toList, "regulators".toList, none, none, none⟩

def regulatorPart : Part := ⟨3, 1, "Regulator".toList, some 5, none⟩

def regulatorConfig : PartEda := ⟨1, 3, some 7, none, none, none⟩

def regulatorCatalogue : Catalogue := ⟨[regulatorPart], [regulatorConfig]⟩

/-- One category, and one symbol filed under `categoryId`. -/
def filedState (category : PartCategory) (categoryId : Option Uuid) : State where
  symbols := [⟨7, 1, "LM317".toList, [], 0, none, categoryId, none⟩]
  footprints := []
  datafiles := []
  links := []
  categories := [category]
  files := ⟨[]⟩

theorem keyed_filedState (category : PartCategory) (categoryId : Option Uuid) :
    Keyed (filedState category categoryId) regulatorCatalogue where
  entries := by
    intro model
    cases model <;> simp [State.rows, filedState]
  names := by
    intro model hmodel workspaceId
    refine List.Nodup.sublist (List.filter_sublist.map _) ?_
    cases model <;> simp [State.rows, filedState]
  parts := by decide
  configs := by decide

/-- Where part and symbol are filed under one active category, the reference ships. -/
theorem reported_ships_iff_filed :
    ∃ doc, partDetail (filedState regulators (some 5)) regulatorCatalogue 1 3 = some doc ∧
      (partEdaPayload (filedState regulators (some 5)) regulatorPart regulatorConfig).symbolRef =
        some doc.symbolIdStr := by
  have hsymbol : ⟨7, 1, "LM317".toList, [], 0, none, some 5, none⟩ ∈
      activeRows (filedState regulators (some 5)) 1 .symbol := List.mem_singleton.mpr rfl
  obtain ⟨⟨doc, hdoc, hiff⟩, -⟩ := (reported_ships_iff (keyed_filedState regulators (some 5))
    (List.mem_singleton.mpr rfl) rfl (List.mem_singleton.mpr rfl) ⟨rfl, rfl⟩
    textLe).1 _ hsymbol rfl rfl
  exact ⟨doc, hdoc, hiff.mpr ⟨by decide, by decide⟩⟩

/-- A symbol without a category under a part with one, and a symbol and a part under one archived
category, are served and shipped in the library of no category and reported in the part's. -/
theorem reported_elsewhere :
    ([filedState regulators none,
        filedState { regulators with archivedAt := some 1 } (some 5)].all fun s =>
      (partEdaPayload s regulatorPart regulatorConfig).symbolRef =
          some "PCM_SM_regulators:LM317".toList ∧
        (partDetail s regulatorCatalogue 1 3).map (·.symbolIdStr) =
          some "PCM_SM_uncategorized:LM317".toList ∧
        (planPackage textLe s 1).toOption.map (fun plan => plan.symbols.map fun e => (e.stem, e.name)) =
          some [("SM_uncategorized".toList, "LM317".toList)]) = true := by
  decide +kernel

end StockManager.Eda

namespace StockManager.Kicad

variable {workspaceId : Uuid} {id : Option Uuid} {external text : Option String} {db : Db}

def idOf : Option IdText → Option Uuid
  | some (.id u) => some u
  | _ => none

def SetPartEda.config (args : SetPartEda) : PartEdaIn where
  symbolId := idOf args.symbolId
  symbolRefExternal := args.symbolRefExternal
  footprintId := idOf args.footprintId
  footprintRefExternal := args.footprintRefExternal
  spiceDatafileId := idOf args.spiceDatafileId
  value := args.value
  keywords := args.keywords
  footprintFilters := args.footprintFilters
  excludeFromBom := args.excludeFromBom
  excludeFromBoard := args.excludeFromBoard
  excludeFromSim := args.excludeFromSim

theorem supplied_getD {α : Type} [DecidableEq α] (default value : α) :
    (supplied default value).getD default = value := by
  unfold supplied
  split
  next => rfl
  next h => exact (not_not.mp h).symm

theorem uuidArg_ok {field : String} {arg : Option IdText}
    (h : uuidArg field arg = .ok id) : id = idOf arg := by
  unfold uuidArg at h
  split at h
  next =>
    cases h
    rfl
  next =>
    cases h
    rfl
  next =>
    split at h
    · cases h
      rfl
    · cases h

theorem uuidArg_echo (field : String) (id : Option Uuid) :
    uuidArg field (id.map .id) = .ok (idOf (id.map .id)) := by
  cases id <;> rfl

theorem idOf_id (id : Option Uuid) : idOf (id.map .id) = id := by
  cases id <;> rfl

section Calls

variable {partUrl : Uuid → String} {db db' : Db} {workspaceId : Uuid} {part : Part}
  {args : SetPartEda} {reply : PartEdaPayload} {config after : PartEda} {p : PartEdaIn}

def Accepts (db : Db) (workspaceId : Uuid) (p : PartEdaIn) : Prop :=
  resolveSlot db.symbols workspaceId "symbol" "eda_symbol.not_found" p.symbolId
      p.symbolRefExternal = .ok () ∧
    resolveSlot db.footprints workspaceId "footprint" "eda_footprint.not_found" p.footprintId
      p.footprintRefExternal = .ok () ∧
    resolveSpice db workspaceId p.spiceDatafileId = .ok ()

theorem upsertPartEda_ok (hfound : (configOf db workspaceId part.id).isSome = true) :
    upsertPartEda db workspaceId part p = .ok (db', after) ↔ Accepts db workspaceId p ∧
      after = applyPartEda workspaceId part.id p ∧ db' = db.withConfig after := by
  obtain ⟨old, hold⟩ := Option.isSome_iff_exists.mp hfound
  constructor
  · intro h
    rw [upsertPartEda] at h
    obtain ⟨_, hsymbol, h⟩ := Outcome.bind_ok.mp h
    obtain ⟨_, hfootprint, h⟩ := Outcome.bind_ok.mp h
    obtain ⟨_, hspice, h⟩ := Outcome.bind_ok.mp h
    rw [hold] at h
    obtain ⟨rfl, rfl⟩ := Prod.mk.inj (Outcome.pure_ok.mp h)
    exact ⟨⟨hsymbol, hfootprint, hspice⟩, rfl, rfl⟩
  · rintro ⟨⟨hsymbol, hfootprint, hspice⟩, rfl, rfl⟩
    rw [upsertPartEda, hsymbol, hfootprint, hspice, hold]
    rfl

theorem setPartEda_ok (h : setPartEda partUrl db workspaceId args = .ok (db', reply)) :
    ∃ part after, resolvePart db workspaceId args.partId = .ok part ∧
      upsertPartEda db workspaceId part args.config = .ok (db', after) := by
  rw [setPartEda] at h
  obtain ⟨part, hpart, h⟩ := Outcome.bind_ok.mp h
  obtain ⟨symbolId, hsymbol, h⟩ := Outcome.bind_ok.mp h
  obtain ⟨footprintId, hfootprint, h⟩ := Outcome.bind_ok.mp h
  obtain ⟨spiceId, hspice, h⟩ := Outcome.bind_ok.mp h
  obtain ⟨_, _, h⟩ := Outcome.bind_ok.mp h
  obtain ⟨⟨db₁, after⟩, hupsert, h⟩ := Outcome.bind_ok.mp h
  obtain ⟨rfl, _⟩ := Prod.mk.inj (Outcome.pure_ok.mp h)
  simp only [supplied_getD, uuidArg_ok hsymbol, uuidArg_ok hfootprint, uuidArg_ok hspice] at hupsert
  exact ⟨part, after, hpart, hupsert⟩

theorem setPartEda_accepted (hpart : resolvePart db workspaceId args.partId = .ok part)
    (hsymbol : uuidArg "symbol_id" args.symbolId = .ok (idOf args.symbolId))
    (hfootprint : uuidArg "footprint_id" args.footprintId = .ok (idOf args.footprintId))
    (hspice : uuidArg "spice_datafile_id" args.spiceDatafileId = .ok (idOf args.spiceDatafileId))
    (hvalid : args.config.valid = true)
    (hupsert : upsertPartEda db workspaceId part args.config = .ok (db', after)) :
    ∃ reply, setPartEda partUrl db workspaceId args = .ok (db', reply) := by
  have hcheck : Outcome.check (args.config.valid = true) ConfigError.validation = .ok () :=
    Outcome.check_ok.mpr hvalid
  refine ⟨partEdaPayload partUrl db' part (some after), ?_⟩
  rw [setPartEda]
  refine Outcome.bind_ok.mpr ⟨part, hpart, Outcome.bind_ok.mpr ⟨_, hsymbol, Outcome.bind_ok.mpr
    ⟨_, hfootprint, Outcome.bind_ok.mpr ⟨_, hspice, ?_⟩⟩⟩⟩
  simp only [supplied_getD]
  exact Outcome.bind_ok.mpr ⟨(), hcheck, Outcome.bind_ok.mpr ⟨_, hupsert, rfl⟩⟩

end Calls

/-- One column after another, a missing and an empty filter list alike. -/
def SameColumns (a b : PartEda) : Prop :=
  ∃ filters, a = { b with footprintFilters := filters } ∧
    filters.getD [] = b.footprintFilters.getD []

/-- A new value for one argument. -/
inductive Change
  | symbolId (id : Option IdText)
  | symbolRefExternal (ref : Option String)
  | footprintId (id : Option IdText)
  | footprintRefExternal (ref : Option String)
  | spiceDatafileId (id : Option IdText)
  | value (text : Option String)
  | keywords (text : Option String)
  | footprintFilters (filters : Option (List String))
  | excludeFromBom (flag : Bool)
  | excludeFromBoard (flag : Bool)
  | excludeFromSim (flag : Bool)

def Change.apply (args : SetPartEda) : Change → SetPartEda
  | symbolId id => { args with symbolId := id }
  | symbolRefExternal ref => { args with symbolRefExternal := ref }
  | footprintId id => { args with footprintId := id }
  | footprintRefExternal ref => { args with footprintRefExternal := ref }
  | spiceDatafileId id => { args with spiceDatafileId := id }
  | value text => { args with value := text }
  | keywords text => { args with keywords := text }
  | footprintFilters filters => { args with footprintFilters := filters }
  | excludeFromBom flag => { args with excludeFromBom := flag }
  | excludeFromBoard flag => { args with excludeFromBoard := flag }
  | excludeFromSim flag => { args with excludeFromSim := flag }

/-- The column of the argument written over. -/
def Change.write (row : PartEda) : Change → PartEda
  | symbolId id => { row with symbolId := idOf id }
  | symbolRefExternal ref => { row with symbolRefExternal := ref }
  | footprintId id => { row with footprintId := idOf id }
  | footprintRefExternal ref => { row with footprintRefExternal := ref }
  | spiceDatafileId id => { row with spiceDatafileId := idOf id }
  | value text => { row with value := text }
  | keywords text => { row with keywords := text }
  | footprintFilters filters => { row with footprintFilters := filters }
  | excludeFromBom flag => { row with excludeFromBom := flag }
  | excludeFromBoard flag => { row with excludeFromBoard := flag }
  | excludeFromSim flag => { row with excludeFromSim := flag }

theorem Change.apply_partId (args : SetPartEda) (change : Change) :
    (change.apply args).partId = args.partId := by
  cases change <;> rfl

theorem Change.write_config (workspaceId partId : Uuid) (args : SetPartEda) (change : Change) :
    applyPartEda workspaceId partId (change.apply args).config =
      change.write (applyPartEda workspaceId partId args.config) := by
  cases change <;> rfl

theorem SameColumns.write {a b : PartEda} (h : SameColumns a b) (change : Change) :
    SameColumns (change.write a) (change.write b) := by
  obtain ⟨filters, rfl, hfilters⟩ := h
  cases change with
  | footprintFilters new => exact ⟨new, rfl, rfl⟩
  | _ => exact ⟨filters, rfl, hfilters⟩

/-- The primary keys, and one configuration for a part. -/
structure ConfigKeys (db : Db) : Prop where
  parts : (db.parts.map (·.id)).Nodup
  configs : (db.partEda.map (·.partId)).Nodup
  symbols : (db.symbols.map (·.id)).Nodup
  footprints : (db.footprints.map (·.id)).Nodup
  datafiles : (db.datafiles.map (·.id)).Nodup

/-- The columns of a configuration as the body that would write them. -/
def PartEda.body (config : PartEda) : PartEdaIn where
  symbolId := config.symbolId
  symbolRefExternal := config.symbolRefExternal
  footprintId := config.footprintId
  footprintRefExternal := config.footprintRefExternal
  spiceDatafileId := config.spiceDatafileId
  value := config.value
  keywords := config.keywords
  footprintFilters := config.footprintFilters
  excludeFromBom := config.excludeFromBom
  excludeFromBoard := config.excludeFromBoard
  excludeFromSim := config.excludeFromSim
  simDevice := config.simDevice
  simPins := config.simPins
  simParams := config.simParams

/-- A row that is within the limits, with one reference in a slot, to active entries of the
workspace. -/
structure Stored (db : Db) (workspaceId : Uuid) (config : PartEda) : Prop where
  valid : config.body.valid = true
  symbolAlone : config.symbolId = none ∨ config.symbolRefExternal = none
  footprintAlone : config.footprintId = none ∨ config.footprintRefExternal = none
  symbol : ∀ id ∈ config.symbolId, ∃ e ∈ db.symbols,
    e.id = id ∧ e.workspaceId = workspaceId ∧ e.archivedAt = none
  footprint : ∀ id ∈ config.footprintId, ∃ e ∈ db.footprints,
    e.id = id ∧ e.workspaceId = workspaceId ∧ e.archivedAt = none
  spice : ∀ id ∈ config.spiceDatafileId, ∃ d ∈ db.datafiles,
    d.id = id ∧ d.workspaceId = workspaceId ∧ d.archivedAt = none ∧ d.kind = "spice"

theorem resolveSlot_ok {entries : List EdaEntry} (hkeys : (entries.map (·.id)).Nodup)
    {entryId : Option Uuid} (slot notFound : String)
    (halone : entryId = none ∨ external = none)
    (hentry : ∀ id ∈ entryId, ∃ e ∈ entries,
      e.id = id ∧ e.workspaceId = workspaceId ∧ e.archivedAt = none) :
    resolveSlot entries workspaceId slot notFound entryId external = .ok () := by
  cases entryId with
  | none => rfl
  | some id =>
    obtain hnone | hexternal := halone
    · cases hnone
    obtain ⟨e, he, hid, hworkspace, hactive⟩ := hentry id rfl
    have hfind : entries.find? (fun e => e.id = id ∧ e.workspaceId = workspaceId) = some e := by
      apply find_row hkeys he _ (by simp [hid, hworkspace])
      intro other hother
      simp only [decide_eq_true_eq] at hother
      rw [hother.1, hid]
    exact Outcome.bind_ok.mpr ⟨(), Outcome.check_ok.mpr hexternal, Outcome.bind_ok.mpr
      ⟨e, Outcome.orRaise_ok.mpr hfind, Outcome.check_ok.mpr hactive⟩⟩

theorem resolveSpice_ok (hkeys : (db.datafiles.map (·.id)).Nodup)
    (hentry : ∀ u ∈ id, ∃ d ∈ db.datafiles,
      d.id = u ∧ d.workspaceId = workspaceId ∧ d.archivedAt = none ∧ d.kind = "spice") :
    resolveSpice db workspaceId id = .ok () := by
  cases id with
  | none => rfl
  | some u =>
    obtain ⟨d, hd, hid, hworkspace, hactive, hkind⟩ := hentry u rfl
    have hfind : db.datafiles.find? (fun d => d.id = u ∧ d.workspaceId = workspaceId) = some d := by
      apply find_row hkeys hd _ (by simp [hid, hworkspace])
      intro other hother
      simp only [decide_eq_true_eq] at hother
      rw [hother.1, hid]
    exact Outcome.bind_ok.mpr ⟨d, Outcome.orRaise_ok.mpr hfind, Outcome.bind_ok.mpr
      ⟨(), Outcome.check_ok.mpr hactive, Outcome.check_ok.mpr hkind⟩⟩

theorem truthy_eq_self : truthy text = text ↔ text ≠ some "" := by
  cases text with
  | none => simp [truthy]
  | some t =>
    by_cases ht : t = ""
    · simp [truthy, ht]
    · simp [truthy, ht]

theorem truthy_none (h : text = none) : truthy text = none := by
  rw [h]
  rfl

theorem within_truthy {limit : ℕ} (h : within limit text = true) :
    within limit (truthy text) = true := by
  cases htext : truthy text with
  | none => rfl
  | some t =>
    obtain ⟨rfl, _⟩ := Option.filter_eq_some_iff.mp htext
    exact h

def echoed (config : PartEda) : PartEda :=
  { config with
    symbolRefExternal := truthy config.symbolRefExternal
    footprintRefExternal := truthy config.footprintRefExternal
    value := truthy config.value
    keywords := truthy config.keywords
    footprintFilters := config.footprintFilters.filter (· ≠ [])
    simDevice := none
    simPins := none
    simParams := none }

theorem getD_filter (filters : Option (List String)) :
    (filters.filter (· ≠ [])).getD [] = filters.getD [] := by
  cases filters with
  | none => rfl
  | some l => cases l <;> rfl

theorem sameColumns_echoed {config : PartEda} : SameColumns (echoed config) config ↔
    (config.simDevice = none ∧ config.simPins = none ∧ config.simParams = none) ∧
      config.symbolRefExternal ≠ some "" ∧ config.footprintRefExternal ≠ some "" ∧
      config.value ≠ some "" ∧ config.keywords ≠ some "" := by
  simp only [← truthy_eq_self]
  constructor
  · rintro ⟨filters, hsame, _⟩
    have hcolumns := PartEda.mk.inj hsame
    obtain ⟨_, _, _, hsymbol, _, hfootprint, _, hvalue, hkeywords, _, _, _, _, hdevice, hpins,
      hparams⟩ := hcolumns
    exact ⟨⟨hdevice.symm, hpins.symm, hparams.symm⟩, hsymbol, hfootprint, hvalue, hkeywords⟩
  · rintro ⟨⟨hdevice, hpins, hparams⟩, hsymbol, hfootprint, hvalue, hkeywords⟩
    refine ⟨config.footprintFilters.filter (· ≠ []), ?_, getD_filter _⟩
    rw [echoed, hsymbol, hfootprint, hvalue, hkeywords, hdevice, hpins, hparams]

section Echo

variable {partUrl : Uuid → String} {db : Db} {workspaceId : Uuid} {part : Part} {config : PartEda}

theorem config_echo (hof : config.workspaceId = workspaceId ∧ config.partId = part.id) :
    applyPartEda workspaceId part.id
      (SetPartEda.echo (partEdaPayload partUrl db part (some config))).config = echoed config := by
  obtain ⟨rfl, hpart⟩ := hof
  rw [← hpart]
  simp only [applyPartEda, SetPartEda.config, SetPartEda.echo, partEdaPayload, idOf_id, echoed,
    Option.getD_some]

theorem valid_echo (h : config.body.valid = true) :
    (SetPartEda.echo (partEdaPayload partUrl db part (some config))).config.valid = true := by
  rw [PartEdaIn.valid, decide_eq_true_eq] at h
  obtain ⟨hsymbol, hfootprint, hvalue, hkeywords, hfilters, _, _, _⟩ := h
  have hkept : (config.footprintFilters.filter (· ≠ [])).all
      (fun l => l.length ≤ 50 ∧ l.all isFootprintFilter) = true := by
    rw [Option.all_eq_true] at hfilters ⊢
    intro l hl
    exact hfilters l (Option.filter_eq_some_iff.mp hl).1
  rw [PartEdaIn.valid, decide_eq_true_eq]
  exact ⟨within_truthy hsymbol, within_truthy hfootprint, within_truthy hvalue,
    within_truthy hkeywords, hkept, rfl, rfl, rfl⟩

theorem alone_truthy (h : id = none ∨ external = none) :
    id = none ∨ truthy external = none :=
  h.imp_right truthy_none

theorem accepts_echo (hkeys : ConfigKeys db) (h : Stored db workspaceId config) :
    Accepts db workspaceId (SetPartEda.echo (partEdaPayload partUrl db part (some config))).config := by
  simp only [Accepts, SetPartEda.config, SetPartEda.echo, partEdaPayload, idOf_id]
  exact ⟨resolveSlot_ok hkeys.symbols _ _ (alone_truthy h.symbolAlone) h.symbol,
    resolveSlot_ok hkeys.footprints _ _ (alone_truthy h.footprintAlone) h.footprint,
    resolveSpice_ok hkeys.datafiles h.spice⟩

theorem resolvePart_id (hkeys : ConfigKeys db) (hpart : part ∈ db.parts)
    (hof : part.workspaceId = workspaceId) (hactive : part.archivedAt = none) :
    resolvePart db workspaceId (.id part.id) = .ok part := by
  refine Outcome.orRaise_ok.mpr (find_row hkeys.parts hpart _ (by simp [hof, hactive, isPart]) ?_)
  intro other hother
  simp only [isPart, decide_eq_true_eq] at hother
  exact hother.2.2

theorem configOf_row (hkeys : ConfigKeys db) (hconfig : config ∈ db.partEda)
    (hof : config.workspaceId = workspaceId ∧ config.partId = part.id) :
    configOf db workspaceId part.id = some config := by
  refine find_row hkeys.configs hconfig _ (by simp [hof]) ?_
  intro other hother
  simp only [decide_eq_true_eq] at hother
  rw [hother.2, hof.2]

theorem withConfig_inj {old a b : PartEda} (hold : old ∈ db.partEda)
    (ha : old.workspaceId = a.workspaceId ∧ old.partId = a.partId)
    (hb : old.workspaceId = b.workspaceId ∧ old.partId = b.partId)
    (h : db.withConfig a = db.withConfig b) : a = b := by
  have hrows : (db.withConfig a).partEda = (db.withConfig b).partEda := congrArg Db.partEda h
  have hat := List.map_inj_left.mp hrows old hold
  rw [if_pos ha, if_pos hb] at hat
  exact hat

end Echo

/-- Reading the configuration and writing it back keeps every column, and a changed argument
changes its own column and nothing else. -/
def RoundTrips (partUrl : Uuid → String) (db : Db) (workspaceId : Uuid) (part : Part)
    (config : PartEda) : Prop :=
  ∃ payload, getPartEda partUrl db workspaceId (.id part.id) = .ok payload ∧
    (∃ after reply, setPartEda partUrl db workspaceId (.echo payload) =
        .ok (db.withConfig after, reply) ∧ SameColumns after config) ∧
    ∀ (change : Change) db' reply,
      setPartEda partUrl db workspaceId (change.apply (.echo payload)) = .ok (db', reply) →
        ∃ after, db' = db.withConfig after ∧ SameColumns after (change.write config)

/-- A configuration is read and written back unchanged where it has no SPICE fields and no
text that is empty. -/
theorem roundTrips_iff (partUrl : Uuid → String) {db : Db} (hkeys : ConfigKeys db) {part : Part}
    (hpart : part ∈ db.parts) (hactive : part.archivedAt = none) {config : PartEda}
    (hconfig : config ∈ db.partEda)
    (hof : config.workspaceId = part.workspaceId ∧ config.partId = part.id)
    (hstored : Stored db part.workspaceId config) :
    RoundTrips partUrl db part.workspaceId part config ↔
      (config.simDevice = none ∧ config.simPins = none ∧ config.simParams = none) ∧
        config.symbolRefExternal ≠ some "" ∧ config.footprintRefExternal ≠ some "" ∧
        config.value ≠ some "" ∧ config.keywords ≠ some "" := by
  have hresolve := resolvePart_id hkeys hpart rfl hactive
  have hrow := configOf_row hkeys hconfig hof
  have hfound : (configOf db part.workspaceId part.id).isSome = true := by
    rw [hrow]
    rfl
  have hread : getPartEda partUrl db part.workspaceId (.id part.id) =
      .ok (partEdaPayload partUrl db part (some config)) := by
    rw [getPartEda, hresolve, ← hrow]
    rfl
  have hwritten := @config_echo partUrl db _ _ _ hof
  have hupsert : upsertPartEda db part.workspaceId part
      (SetPartEda.echo (partEdaPayload partUrl db part (some config))).config =
        .ok (db.withConfig (echoed config), echoed config) :=
    (upsertPartEda_ok hfound).mpr ⟨accepts_echo hkeys hstored, hwritten.symm, rfl⟩
  obtain ⟨reply, hset⟩ := @setPartEda_accepted partUrl _ _ _ _ _ _ hresolve (uuidArg_echo _ _)
    (uuidArg_echo _ _) (uuidArg_echo _ _) (valid_echo hstored.valid) hupsert
  rw [← sameColumns_echoed]
  constructor
  · rintro ⟨payload, hpayload, ⟨after, reply', hafter, hsame⟩, _⟩
    obtain rfl := Except.ok.inj (hread.symm.trans hpayload)
    obtain ⟨hdb, _⟩ := Prod.mk.inj (Except.ok.inj (hset.symm.trans hafter))
    have hkey : config.workspaceId = after.workspaceId ∧ config.partId = after.partId := by
      obtain ⟨filters, rfl, _⟩ := hsame
      exact ⟨rfl, rfl⟩
    have hecho : echoed config = after := withConfig_inj hconfig ⟨rfl, rfl⟩ hkey hdb
    rw [hecho]
    exact hsame
  · intro hsame
    refine ⟨_, hread, ⟨echoed config, reply, hset, hsame⟩, ?_⟩
    intro change db' reply' hchanged
    obtain ⟨found, after, hfoundPart, hwrite⟩ := setPartEda_ok hchanged
    rw [Change.apply_partId] at hfoundPart
    obtain rfl := Except.ok.inj (hresolve.symm.trans hfoundPart)
    obtain ⟨_, rfl, rfl⟩ := (upsertPartEda_ok hfound).mp hwrite
    refine ⟨_, rfl, ?_⟩
    rw [Change.write_config, hwritten]
    exact hsame.write change

theorem resolveSlot_active {entries : List EdaEntry} {slot notFound : String}
    {entryId : Option Uuid}
    (h : resolveSlot entries workspaceId slot notFound entryId external = .ok ()) :
    (entryId = none ∨ external = none) ∧ ∀ id ∈ entryId, ∃ e ∈ entries,
      e.id = id ∧ e.workspaceId = workspaceId ∧ e.archivedAt = none := by
  cases entryId with
  | none => exact ⟨Or.inl rfl, fun id hid => by cases hid⟩
  | some id =>
    obtain ⟨_, halone, h⟩ := Outcome.bind_ok.mp h
    obtain ⟨e, hfind, hactive⟩ := Outcome.bind_ok.mp h
    have hfound := Outcome.orRaise_ok.mp hfind
    have hsame := List.find?_some hfound
    simp only [decide_eq_true_eq] at hsame
    refine ⟨Or.inr (Outcome.check_ok.mp halone), ?_⟩
    intro u hu
    obtain rfl := Option.some.inj hu
    exact ⟨e, List.mem_of_find?_eq_some hfound, hsame.1, hsame.2, Outcome.check_ok.mp hactive⟩

theorem resolveSpice_active
    (h : resolveSpice db workspaceId id = .ok ()) : ∀ u ∈ id, ∃ d ∈ db.datafiles,
      d.id = u ∧ d.workspaceId = workspaceId ∧ d.archivedAt = none ∧ d.kind = "spice" := by
  cases id with
  | none => exact fun u hu => by cases hu
  | some u =>
    obtain ⟨d, hfind, h⟩ := Outcome.bind_ok.mp h
    obtain ⟨_, hactive, hkind⟩ := Outcome.bind_ok.mp h
    have hfound := Outcome.orRaise_ok.mp hfind
    have hsame := List.find?_some hfound
    simp only [decide_eq_true_eq] at hsame
    intro w hw
    obtain rfl := Option.some.inj hw
    exact ⟨d, List.mem_of_find?_eq_some hfound, hsame.1, hsame.2, Outcome.check_ok.mp hactive,
      Outcome.check_ok.mp hkind⟩

theorem stored_putPartEda {db db' : Db} {part : Part} {p : PartEdaIn}
    {config : PartEda} (h : putPartEda db workspaceId part p = .ok (db', config)) :
    config.workspaceId = workspaceId ∧ config.partId = part.id ∧ config.body = p ∧
      Stored db workspaceId config := by
  rw [putPartEda] at h
  obtain ⟨_, hvalid, h⟩ := Outcome.bind_ok.mp h
  rw [upsertPartEda] at h
  obtain ⟨_, hsymbol, h⟩ := Outcome.bind_ok.mp h
  obtain ⟨_, hfootprint, h⟩ := Outcome.bind_ok.mp h
  obtain ⟨_, hspice, h⟩ := Outcome.bind_ok.mp h
  have hconfig : config = applyPartEda workspaceId part.id p := by
    split at h
    all_goals
      obtain ⟨_, rfl⟩ := Prod.mk.inj (Outcome.pure_ok.mp h)
      rfl
  subst hconfig
  obtain ⟨hsymbolAlone, hsymbol⟩ := resolveSlot_active hsymbol
  obtain ⟨hfootprintAlone, hfootprint⟩ := resolveSlot_active hfootprint
  exact ⟨rfl, rfl, rfl, Outcome.check_ok.mp hvalid, hsymbolAlone, hfootprintAlone, hsymbol,
    hfootprint, resolveSpice_active hspice⟩

def resistor : Part := ⟨3, 1, "Resistor", none, none, none, none, none, none⟩

/-- A configuration of the part 3 with nothing hosted. -/
def resistorConfig (value simDevice : Option String) : PartEda :=
  ⟨1, 3, none, some "Device:R", none, none, none, value, none, none, false, false, true,
    simDevice, none, none⟩

def resistorDb (config : PartEda) : Db := ⟨[resistor], [config], [], [], [], [], []⟩

def sampleUrl (_ : Uuid) : String := "/parts/3"

theorem configKeys_resistorDb (config : PartEda) : ConfigKeys (resistorDb config) where
  parts := List.nodup_singleton _
  configs := List.nodup_singleton _
  symbols := List.nodup_nil
  footprints := List.nodup_nil
  datafiles := List.nodup_nil

theorem roundTrips_plain : RoundTrips sampleUrl (resistorDb (resistorConfig (some "10k") none)) 1
    resistor (resistorConfig (some "10k") none) := by
  have hstored : Stored (resistorDb (resistorConfig (some "10k") none)) 1
      (resistorConfig (some "10k") none) :=
    { valid := by decide
      symbolAlone := Or.inl rfl
      footprintAlone := Or.inl rfl
      symbol := fun id hid => by cases hid
      footprint := fun id hid => by cases hid
      spice := fun id hid => by cases hid }
  exact (roundTrips_iff sampleUrl (configKeys_resistorDb _) (List.mem_singleton.mpr rfl) rfl
    (List.mem_singleton.mpr rfl) ⟨rfl, rfl⟩ hstored).mpr (by decide)

/-- The rows that the call with the payload of the row leaves. -/
def rowsEchoed (config : PartEda) : Except ConfigError (List PartEda) := do
  let payload ← getPartEda sampleUrl (resistorDb config) 1 (.id 3)
  let (db, _) ← setPartEda sampleUrl (resistorDb config) 1 (.echo payload)
  return db.partEda

/-- A configuration stored by the route with a SPICE device, or with an empty value, loses it. -/
theorem columns_lost :
    ((putPartEda ⟨[resistor], [], [], [], [], [], []⟩ 1 resistor
        { symbolRefExternal := some "Device:R", value := some "10k", simDevice := some "R" }).toOption.map
          fun stored => stored.1.partEda) = some [resistorConfig (some "10k") (some "R")] ∧
      (rowsEchoed (resistorConfig (some "10k") (some "R"))).toOption =
        some [resistorConfig (some "10k") none] ∧
      (rowsEchoed (resistorConfig (some "") none)).toOption = some [resistorConfig none none] := by
  decide

end StockManager.Kicad
