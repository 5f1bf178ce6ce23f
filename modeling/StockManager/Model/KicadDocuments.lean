import StockManager.Model.Categories
import StockManager.Model.PartNames

/-! # KiCad part documents (eda/kicad_library.py, value_template.py, kicad_refs.py)

The chooser's categories, the parts of one category and the detail of one part. Letters
of field labels are ASCII: a stored key is made of them and of underscores. -/

namespace StockManager.Kicad

open CategorySettings (CategoryRow CategoryRules ownRules rulesByCategory)

/-! ### Tables -/

structure Part where
  id : Uuid
  workspaceId : Uuid
  name : String
  categoryId : Option Uuid
  archivedAt : Option Timestamp
  description : Option String
  mpn : Option String
  manufacturer : Option String
  internalPartNumber : Option String
  deriving DecidableEq

/-- `part_eda`, at most one row for a part -/
structure PartEda where
  workspaceId : Uuid
  partId : Uuid
  symbolId : Option Uuid
  symbolRefExternal : Option String
  footprintId : Option Uuid
  footprintRefExternal : Option String
  spiceDatafileId : Option Uuid
  value : Option String
  keywords : Option String
  footprintFilters : Option (List String)
  excludeFromBom : Bool
  excludeFromBoard : Bool
  excludeFromSim : Bool
  simDevice : Option String
  simPins : Option String
  simParams : Option String
  deriving DecidableEq

/-- A row of `eda_symbols` or `eda_footprints` -/
structure EdaEntry where
  id : Uuid
  workspaceId : Uuid
  name : String
  source : String
  categoryId : Option Uuid
  archivedAt : Option Timestamp
  deriving DecidableEq

structure EdaDatafile where
  id : Uuid
  workspaceId : Uuid
  name : String
  kind : String
  archivedAt : Option Timestamp
  deriving DecidableEq

structure PartCategory extends CategoryRow where
  description : Option String
  librarySlug : String
  defaultSymbolRef : Option String
  defaultFootprintRef : Option String
  footprintFilters : Option (List String)
  deriving DecidableEq

structure CustomField where
  workspaceId : Uuid
  objectType : String
  objectId : Uuid
  key : String
  value : Option String
  archivedAt : Option Timestamp
  deriving DecidableEq

structure Db where
  parts : List Part
  partEda : List PartEda
  symbols : List EdaEntry
  footprints : List EdaEntry
  datafiles : List EdaDatafile
  categories : List PartCategory
  customFields : List CustomField

/-! ### value_template.py -/

def isKeyChar (c : Char) : Bool := ('a' ≤ c && c ≤ 'z') || c = '_'

inductive Piece
  | char (c : Char)
  | key (name : String)
  deriving DecidableEq

/-- A template and its placeholders, braces around lower-case letters and underscores -/
def pieces : List Char → List Piece
  | [] => []
  | c :: rest =>
    if c = '\x7b' ∧ rest.takeWhile isKeyChar ≠ [] ∧ (rest.dropWhile isKeyChar).head? = some '\x7d' then
      .key (String.ofList (rest.takeWhile isKeyChar)) :: pieces (rest.dropWhile isKeyChar).tail
    else .char c :: pieces rest
termination_by text => text.length
decreasing_by
  · have hle := (List.dropWhile_suffix isKeyChar (l := rest)).length_le
    rw [List.length_tail, List.length_cons]
    omega
  · rw [List.length_cons]
    omega

def mpnPlaceholder : String := "mpn"

/-- `placeholder_keys`: `mpn` is a column of the part. -/
def placeholderKeys (template : Option String) : List String :=
  (pieces (template.getD "").toList).filterMap fun
    | .char _ => none
    | .key name => if name = mpnPlaceholder then none else some name

/-- `(raw or "").strip()` for a placeholder, the character itself for any other -/
def substitute (specs : List (String × String)) (mpn : Option String) : Piece → String
  | .char c => c.toString
  | .key name => Naming.clean (if name = mpnPlaceholder then mpn else Dict.find name specs)

def renderValue (template : Option String) (specs : List (String × String)) (mpn : Option String) :
    Option String :=
  if template.getD "" = "" then none
  else Naming.renderValue
    (String.join ((pieces (template.getD "").toList).map (substitute specs mpn)))

/-- `str.title`: a letter behind a letter is small, any other letter is a capital. -/
def titled : Bool → List Char → List Char
  | _, [] => []
  | behindLetter, c :: rest =>
    if c.isAlpha then (if behindLetter then c.toLower else c.toUpper) :: titled true rest
    else c :: titled false rest

/-- `key.replace("_", " ").title()` -/
def specFieldLabel (key : String) : String :=
  String.ofList (titled false (key.toList.map fun c => if c = '_' then ' ' else c))

/-! ### kicad_refs.py -/

/-- A text that is neither missing nor empty -/
def truthy (value : Option String) : Option String := value.filter (· ≠ "")

/-- `PCM_SM_<slug>:<name>` -/
def entryRef (name : String) (categorySlug : Option String) : String :=
  "PCM_" ++ ("SM_" ++ (truthy categorySlug).getD "uncategorized") ++ ":" ++ name

def spicePath (name : String) : String := "$\x7bSTOCKMGR_SPICE\x7d/" ++ name

/-! ### The joined rows

Each outer join is on a unique key, so it finds one row at most. -/

/-- One part with everything its references can resolve from. An archived category joins as none. -/
structure PartRow where
  part : Part
  config : Option PartEda
  symbol : Option EdaEntry
  symbolCategorySlug : Option String
  footprint : Option EdaEntry
  footprintCategorySlug : Option String
  category : Option PartCategory
  deriving DecidableEq

def joinEntry (entries : List EdaEntry) (workspaceId : Uuid) (entryId : Option Uuid) : Option EdaEntry :=
  entries.find? fun e => some e.id = entryId ∧ e.workspaceId = workspaceId ∧ e.archivedAt = none

def joinCategory (db : Db) (workspaceId : Uuid) (categoryId : Option Uuid) : Option PartCategory :=
  db.categories.find? fun c => some c.id = categoryId ∧ c.workspaceId = workspaceId ∧ c.archivedAt = none

def partRow (db : Db) (part : Part) : PartRow :=
  let config := db.partEda.find? fun e => e.partId = part.id ∧ e.workspaceId = part.workspaceId
  let symbol := joinEntry db.symbols part.workspaceId (config.bind (·.symbolId))
  let footprint := joinEntry db.footprints part.workspaceId (config.bind (·.footprintId))
  { part := part
    config := config
    symbol := symbol
    symbolCategorySlug := (joinCategory db part.workspaceId (symbol.bind (·.categoryId))).map (·.librarySlug)
    footprint := footprint
    footprintCategorySlug :=
      (joinCategory db part.workspaceId (footprint.bind (·.categoryId))).map (·.librarySlug)
    category := joinCategory db part.workspaceId part.categoryId }

/-- `_rows_stmt`, in the order of the table -/
def rowsStmt (db : Db) (workspaceId : Uuid) : List PartRow :=
  (db.parts.filter fun part => part.workspaceId = workspaceId ∧ part.archivedAt = none).map (partRow db)

/-! ### References -/

/-- An external reference, else the hosted entry, else the default of the category -/
def resolveRef (external : Option String) (hosted : Option EdaEntry) (slug default : Option String) :
    Option String :=
  (truthy external).or ((hosted.map fun entry => entryRef entry.name slug).or (truthy default))

def symbolIdStr (row : PartRow) : Option String :=
  resolveRef (row.config.bind (·.symbolRefExternal)) row.symbol row.symbolCategorySlug
    (row.category.bind (·.defaultSymbolRef))

def footprintRef (row : PartRow) : Option String :=
  resolveRef (row.config.bind (·.footprintRefExternal)) row.footprint row.footprintCategorySlug
    (row.category.bind (·.defaultFootprintRef))

def footprintFilters (row : PartRow) : Option (List String) :=
  ((row.config.bind (·.footprintFilters)).filter (· ≠ [])).or
    ((row.category.bind (·.footprintFilters)).filter (· ≠ []))

/-! ### Batched lookups -/

def datasheetFieldKey : String := "datasheet_url"

def wantedCustomFieldKeys (rules : List CategoryRules) : List String :=
  rules.flatMap fun rule => placeholderKeys rule.valueTemplate ++ rule.kicadFields.getD []

def customFieldsByPart (db : Db) (workspaceId : Uuid) (partIds : List Uuid) (keys : List String) :
    List (Uuid × List (String × String)) :=
  let rows := db.customFields.filter fun field =>
    field.workspaceId = workspaceId ∧ field.objectType = "part" ∧ field.objectId ∈ partIds ∧
      field.key ∈ keys ∧ field.archivedAt = none
  rows.foldl (fun out field =>
    match truthy field.value with
    | none => out
    | some value => Dict.upsert field.objectId [] (Dict.put field.key value) out) []

def spiceLibraryNames (db : Db) (workspaceId : Uuid) (datafileIds : List Uuid) : List (Uuid × String) :=
  let rows := db.datafiles.filter fun datafile =>
    datafile.workspaceId = workspaceId ∧ datafile.id ∈ datafileIds ∧ datafile.kind = "spice" ∧
      datafile.archivedAt = none
  rows.map fun datafile => (datafile.id, datafile.name)

/-! ### Documents -/

/-- `{"value": …}`, or with `"visible": "False"` -/
structure Field where
  value : String
  hidden : Bool
  deriving DecidableEq

/-- The id is served as its text. -/
structure Document where
  id : Uuid
  name : String
  symbolIdStr : String
  description : String
  keywords : String
  excludeFromBom : String
  excludeFromBoard : String
  excludeFromSim : String
  fields : List (String × Field)
  footprintFilters : Option (List String)
  deriving DecidableEq

def boolStr (value : Bool) : String := if value then "True" else "False"

def builtInFieldNames : List String :=
  ["footprint", "datasheet", "value", "description", "keywords", "mpn", "manufacturer", "ipn", "stockmanager"]

/-- `_put`: an empty value is no field. -/
def putField (key : String) (value : Option String) (fields : List (String × Field)) : List (String × Field) :=
  match truthy value with
  | none => fields
  | some value => Dict.put key ⟨value, true⟩ fields

/-- The loop of `_put_spec_fields`: a label is taken whether or not the part has the value. -/
def putSpecFieldsFrom (specs : List (String × String)) :
    List String → List String → List (String × Field) → List (String × Field)
  | [], _, fields => fields
  | key :: keys, taken, fields =>
    let label := specFieldLabel key
    if label.toLower ∈ taken then putSpecFieldsFrom specs keys taken fields
    else putSpecFieldsFrom specs keys (label.toLower :: taken) (putField label (Dict.find key specs) fields)

def putSpecFields (keys : List String) (specs : List (String × String)) (fields : List (String × Field)) :
    List (String × Field) :=
  putSpecFieldsFrom specs keys (builtInFieldNames ++ (Dict.keys fields).map String.toLower) fields

/-- A local copy is made absolute; other schemes than HTTP are dropped. -/
def datasheetUrl (baseUrl : String) (value : Option String) : Option String :=
  (truthy value).bind fun value =>
    if value.toList.head? = some '/' then some (baseUrl ++ value)
    else if "http://".toList.isPrefixOf value.toLower.toList ∨ "https://".toList.isPrefixOf value.toLower.toList then
      some value
    else none

/-- The rendered value is appended unless the keywords hold it. -/
def keywordsOf (config : Option PartEda) (rendered : Option String) : String :=
  let stored := (config.bind (·.keywords)).getD ""
  match truthy rendered with
  | none => stored
  | some rendered =>
    if rendered.toList <:+: stored.toList then stored else strip (stored ++ " " ++ rendered)

def addSimFields (config : Option PartEda) (spiceNames : List (Uuid × String)) (fields : List (String × Field)) :
    List (String × Field) :=
  match config with
  | none => fields
  | some config =>
    if config.excludeFromSim then fields
    else
      match config.spiceDatafileId.bind fun id => Dict.find id spiceNames with
      | none => fields
      | some name =>
        putField "Sim.Library" (some (spicePath name)) <| putField "Sim.Params" config.simParams <|
          putField "Sim.Pins" config.simPins <| putField "Sim.Device" config.simDevice fields

/-- The fields that are not specs -/
def ownFields (baseUrl : String) (row : PartRow) (datasheet rendered : Option String)
    (spiceNames : List (Uuid × String)) : List (String × Field) :=
  let part := row.part
  let shown := ((truthy (row.config.bind (·.value))).or (truthy rendered)).getD part.name
  addSimFields row.config spiceNames <|
    Dict.put "StockManager" ⟨baseUrl ++ "/parts/" ++ uuidStr part.id, true⟩ <|
    putField "IPN" part.internalPartNumber <| putField "Manufacturer" part.manufacturer <|
    putField "MPN" part.mpn <| putField "keywords" (some (keywordsOf row.config rendered)) <|
    putField "description" part.description <| Dict.put "value" ⟨shown, false⟩ <|
    putField "datasheet" (datasheetUrl baseUrl datasheet) <| putField "footprint" (footprintRef row) []

/-- `_document`; a part without a symbol has none. -/
def document (baseUrl : String) (row : PartRow) (specs : List (Uuid × List (String × String)))
    (spiceNames : List (Uuid × String)) (rules : List (Uuid × CategoryRules)) : Option Document :=
  (symbolIdStr row).map fun symbolIdStr =>
    let part := row.part
    let partSpecs := (Dict.find part.id specs).getD []
    let rule := (row.category.bind fun category => Dict.find category.id rules).getD ⟨none, none⟩
    let rendered := renderValue rule.valueTemplate partSpecs part.mpn
    { id := part.id
      name := part.name
      symbolIdStr := symbolIdStr
      description := part.description.getD ""
      keywords := keywordsOf row.config rendered
      excludeFromBom := boolStr (row.config.elim false (·.excludeFromBom))
      excludeFromBoard := boolStr (row.config.elim false (·.excludeFromBoard))
      excludeFromSim := boolStr (row.config.elim true (·.excludeFromSim))
      fields := putSpecFields (rule.kicadFields.getD []) partSpecs
        (ownFields baseUrl row (Dict.find datasheetFieldKey partSpecs) rendered spiceNames)
      footprintFilters := footprintFilters row }

def documents (baseUrl : String) (db : Db) (workspaceId : Uuid) (rows : List PartRow) : List Document :=
  let rules := rulesByCategory (db.categories.map (·.toCategoryRow)) workspaceId
    (rows.filterMap fun row => row.category.map (·.toCategoryRow)) none
  let specs := customFieldsByPart db workspaceId (rows.map (·.part.id))
    (datasheetFieldKey :: wantedCustomFieldKeys (rules.map Prod.snd))
  let spiceNames := spiceLibraryNames db workspaceId
    (rows.filterMap fun row => row.config.bind (·.spiceDatafileId))
  rows.filterMap fun row => document baseUrl row specs spiceNames rules

/-! ### Buckets -/

/-- The rows of one bucket; no category is the *Uncategorized* bucket. -/
def bucketRows (db : Db) (workspaceId : Uuid) (categoryId : Option Uuid) : List PartRow :=
  (rowsStmt db workspaceId).filter fun row =>
    match categoryId with
    | none => row.category.isNone
    | some id => row.part.categoryId = some id

/-- The order of the database: by name under its collation, then by id -/
def orderRows (collate : String → String → Bool) (rows : List PartRow) : List PartRow :=
  rows.mergeSort fun a b =>
    collate a.part.name b.part.name ∧ (collate b.part.name a.part.name → a.part.id ≤ b.part.id)

def listParts (collate : String → String → Bool) (baseUrl : String) (db : Db) (workspaceId : Uuid)
    (categoryId : Option Uuid) : List Document :=
  documents baseUrl db workspaceId (orderRows collate (bucketRows db workspaceId categoryId))

def partDetail (baseUrl : String) (db : Db) (workspaceId partId : Uuid) : Option Document :=
  ((rowsStmt db workspaceId).find? fun row => row.part.id = partId).bind fun row =>
    (documents baseUrl db workspaceId [row]).head?

def hasUncategorizedParts (db : Db) (workspaceId : Uuid) : Bool :=
  (bucketRows db workspaceId none).any fun row => (symbolIdStr row).isSome

def activeCategories (db : Db) (workspaceId : Uuid) : List PartCategory :=
  db.categories.filter fun category => category.workspaceId = workspaceId ∧ category.archivedAt = none

/-- Without an id it is the bucket `uncategorized`. -/
structure CategoryDocument where
  id : Option Uuid
  name : String
  description : String
  deriving DecidableEq

/-- The rows come by sort order and, under the collation, by name. -/
def listCategories (collate : String → String → Bool) (db : Db) (workspaceId : Uuid) : List CategoryDocument :=
  let rows := (activeCategories db workspaceId).mergeSort fun a b =>
    a.sortOrder < b.sortOrder ∨ a.sortOrder = b.sortOrder ∧ collate a.name b.name
  let out := (Categories.treePaths (rows.map (·.toPartCategory)) Categories.pathSeparator).map fun item =>
    CategoryDocument.mk (some item.1.id) item.2
      (((rows.find? (·.id = item.1.id)).bind (·.description)).getD "")
  if hasUncategorizedParts db workspaceId then
    out ++ [⟨none, "Uncategorized", "Parts without a category"⟩]
  else out

end StockManager.Kicad

/-! ## The symbol-collapse job (eda/symbol_collapse.py)

A part's own vendor symbol is cleared where its category has a symbol to fall back to. -/

namespace StockManager.Kicad.SymbolCollapse

structure Workspace where
  id : Uuid
  name : String
  deriving DecidableEq

structure Estate extends Db where
  workspaces : List Workspace

inductive Action
  | wouldClear
  | cleared
  | skipped
  deriving DecidableEq

structure CollapseCandidate where
  workspaceId : Uuid
  workspaceName : String
  partId : Uuid
  partName : String
  categoryName : String
  symbolId : Uuid
  symbolName : String
  symbolSource : String
  before : String
  after : String
  action : Action
  detail : String
  deriving DecidableEq

def reasonChanged : String := "the part's EDA config changed during the run; re-run the job"

def inChunk : Nat := 1000

/-! ### Candidates -/

structure CandidateRow where
  workspace : Workspace
  part : Part
  category : PartCategory
  symbol : EdaEntry
  symbolCategorySlug : Option String

/-- The joins of `_candidates_stmt`; only the symbol's category may be missing. -/
def joinRow (db : Estate) (part : Part) : Option CandidateRow := do
  let workspace ← db.workspaces.find? (·.id = part.workspaceId)
  let config ← db.partEda.find? fun e => e.partId = part.id ∧ e.workspaceId = part.workspaceId
  let symbol ← joinEntry db.symbols part.workspaceId config.symbolId
  let category ← joinCategory db.toDb part.workspaceId part.categoryId
  return ⟨workspace, part, category, symbol,
    (joinCategory db.toDb part.workspaceId symbol.categoryId).map (·.librarySlug)⟩

/-- The `where` clauses; `coalesce(default_symbol_ref, '') != ''` -/
def isCandidate (row : CandidateRow) : Bool :=
  row.part.archivedAt = none ∧ row.symbol.source ≠ "manual" ∧ row.category.defaultSymbolRef.getD "" ≠ ""

def orderCandidates (collate : String → String → Bool) (rows : List CandidateRow) : List CandidateRow :=
  rows.mergeSort fun a b =>
    collate a.workspace.name b.workspace.name ∧ (collate b.workspace.name a.workspace.name →
      collate a.part.name b.part.name ∧ (collate b.part.name a.part.name → a.part.id ≤ b.part.id))

def candidatesStmt (collate : String → String → Bool) (db : Estate) (workspaceId : Option Uuid) :
    List CandidateRow :=
  orderCandidates collate <| ((db.parts.filterMap (joinRow db)).filter isCandidate).filter fun row =>
    workspaceId.all (row.part.workspaceId = ·)

def rowToCandidate (row : CandidateRow) : CollapseCandidate where
  workspaceId := row.workspace.id
  workspaceName := row.workspace.name
  partId := row.part.id
  partName := row.part.name
  categoryName := row.category.name
  symbolId := row.symbol.id
  symbolName := row.symbol.name
  symbolSource := row.symbol.source
  before := entryRef row.symbol.name row.symbolCategorySlug
  after := row.category.defaultSymbolRef.getD ""
  action := .wouldClear
  detail := ""

/-- A workspace that does not exist is an error. -/
def collapseCandidates (collate : String → String → Bool) (db : Estate) (workspaceId : Option Uuid) :
    Option (List CollapseCandidate) :=
  if workspaceId.all fun id => db.workspaces.any (·.id = id) then
    some ((candidatesStmt collate db workspaceId).map rowToCandidate)
  else none

/-! ### The write -/

def chunks (items : List Uuid) (size : Nat) : List (List Uuid) :=
  (List.range ((items.length + size - 1) / size)).map fun i => (items.drop (i * size)).take size

def configsFor (db : Estate) (workspaceId : Uuid) (partIds : List Uuid) : List PartEda :=
  (chunks partIds inChunk).flatMap fun chunk =>
    db.partEda.filter fun config => config.workspaceId = workspaceId ∧ config.partId ∈ chunk

/-- The row of one part with its symbol cleared, in the table and in the session -/
def clearSymbol (workspaceId partId : Uuid) (config : PartEda) : PartEda :=
  if config.workspaceId = workspaceId ∧ config.partId = partId then { config with symbolId := none } else config

structure ApplyState where
  db : Estate
  configs : List (Uuid × PartEda)
  outcomes : List CollapseCandidate

/-- One candidate, checked against the symbol it was built from -/
def applyRow (workspaceId : Uuid) (expected : List (Uuid × Uuid)) (state : ApplyState) (row : CollapseCandidate) :
    ApplyState :=
  match Dict.find row.partId state.configs with
  | none => { state with outcomes := state.outcomes ++ [{ row with action := .skipped, detail := reasonChanged }] }
  | some config =>
    if config.symbolId ≠ Dict.find row.partId expected then
      { state with outcomes := state.outcomes ++ [{ row with action := .skipped, detail := reasonChanged }] }
    else
      { db := { state.db with partEda := state.db.partEda.map (clearSymbol workspaceId row.partId) }
        configs := Dict.put row.partId { config with symbolId := none } state.configs
        outcomes := state.outcomes ++ [{ row with action := .cleared }] }

def applyOneWorkspace (db : Estate) (workspaceId : Uuid) (rows : List CollapseCandidate) :
    Estate × List CollapseCandidate :=
  let expected := rows.foldl (fun d row => Dict.put row.partId row.symbolId d) []
  let configs := (configsFor db workspaceId (rows.map (·.partId))).foldl
    (fun d config => Dict.put config.partId config d) []
  let state := rows.foldl (applyRow workspaceId expected) ⟨db, configs, []⟩
  (state.db, state.outcomes)

/-- The body of the loop of `_apply` -/
def applyGroup (state : Estate × List CollapseCandidate) (group : Uuid × List CollapseCandidate) :
    Estate × List CollapseCandidate :=
  match state.1.workspaces.find? (·.id = group.1) with
  | none =>
    (state.1, state.2 ++ group.2.map fun row => { row with action := .skipped, detail := "workspace is gone" })
  | some ws =>
    let applied := applyOneWorkspace state.1 ws.id group.2
    (applied.1, state.2 ++ applied.2)

/-- `_apply`, one workspace after the other -/
def apply (db : Estate) (candidates : List CollapseCandidate) : Estate × List CollapseCandidate :=
  (Dict.gather (·.workspaceId) id candidates).foldl applyGroup (db, [])

end StockManager.Kicad.SymbolCollapse
