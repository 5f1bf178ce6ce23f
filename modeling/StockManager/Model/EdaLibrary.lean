import StockManager.Library.ContentStore
import StockManager.Model.Routes
import StockManager.Model.Sexpr

/-! # The EDA library (domain/eda/{service,storage}.py, api/routes/eda.py)

Symbols, footprints and data files are rows that name a stored file by the digest of its
content. `updated_at`, `updated_by` and `source` are left out: no request here reads them. -/

namespace StockManager.Eda

open Sexpr (Text Node SexprError)

inductive DatafileKind
  | step | wrl | spice
  deriving DecidableEq

/-- The library tables. -/
inductive Model
  | symbol | footprint | datafile
  deriving DecidableEq

/-- `SYMBOL_KIND`, `FOOTPRINT_KIND` and `DATAFILE_KINDS` -/
inductive StorageKind
  | symbol | footprint
  | data (kind : DatafileKind)
  deriving DecidableEq

structure Entry where
  id : Uuid
  workspaceId : Uuid
  name : Text
  sha256 : Text
  sizeBytes : ℕ
  kind : Option DatafileKind
  categoryId : Option Uuid
  archivedAt : Option Timestamp

structure FootprintModel where
  workspaceId : Uuid
  footprintId : Uuid
  datafileId : Uuid
  position : ℕ

structure PartCategory where
  id : Uuid
  workspaceId : Uuid
  name : Text
  librarySlug : Text
  defaultSymbolRef : Option Text
  defaultFootprintRef : Option Text
  archivedAt : Option Timestamp

/-- The tables and the file store; a file lies in its workspace's directory under its
digest, with the extension of its kind. -/
structure State where
  symbols : List Entry
  footprints : List Entry
  datafiles : List Entry
  links : List FootprintModel
  categories : List PartCategory
  files : ContentStore (Uuid × StorageKind) Text ByteArray

/-- The settings, the hash, and `_fold` of the importer: its Unicode tables are Python's. -/
structure Env where
  maxUploadBytes : ℕ
  sha256 : ByteArray → Text
  fold : Text → Text

/-! ### Errors -/

inductive ErrorFields
  | nothing
  | resource (label : String)
  | existing (id : Uuid) (name : Text)
  | existingId (id : Uuid)
  | maxBytes (n : ℕ)
  | symbols (count : ℕ) (names : List Text)

/-- An `HTTPException`, or an exception the route does not catch. -/
inductive EdaError
  | http (status : ℕ) (code : String) (message : Text) (fields : ErrorFields)
  | sexpr (e : SexprError)
  | fileNotFound
  | unicodeDecode
  | integrity (constraintName : String)

def DatafileKind.str : DatafileKind → String
  | step => "step"
  | wrl => "wrl"
  | spice => "spice"

def StorageKind.str : StorageKind → String
  | symbol => "symbol"
  | footprint => "footprint"
  | data kind => kind.str

def Model.label : Model → String
  | symbol => "symbol"
  | footprint => "footprint"
  | datafile => "data file"

def Model.notFound : Model → String
  | symbol => "eda_symbol.not_found"
  | footprint => "eda_footprint.not_found"
  | datafile => "eda_datafile.not_found"

def reject (message : Text) : EdaError := .http 422 "eda.invalid_file" message .nothing

/-- `_raise_name_conflict` -/
def nameConflict (model : Model) (existing : Entry) : EdaError :=
  .http 409 "eda.name_conflict" (model.label.toList ++ " \"".toList ++ existing.name ++
    "\" already exists".toList) (.existing existing.id existing.name)

/-! ### Storage (domain/eda/storage.py) -/

def mib : ℕ := 1024 * 1024

def maxBytesFor (env : Env) : StorageKind → ℕ
  | .symbol => mib
  | .footprint => 2 * mib
  | .data .spice => mib
  | .data _ => env.maxUploadBytes

def encode (text : Text) : ByteArray := (String.ofList text).toByteArray

def decode (raw : ByteArray) : Option Text := raw.utf8Decode?.map Array.toList

def decodeText (raw : ByteArray) (kind : String) : Except EdaError Text := do
  Outcome.check (0 ∉ raw.data)
    (reject s!"{kind} file contains NUL bytes — expected a text file".toList)
  Outcome.orRaise (decode raw) (reject s!"{kind} file is not valid UTF-8 text".toList)

/-- `_MAX_ENTRY_NAME`, and the width of the `name` columns. -/
def nameMax : ℕ := 200

def canonicalEntryBytes (env : Env) (node : Node) (kind : StorageKind) (name : Text) :
    Except EdaError ByteArray := do
  Outcome.check (name.length ≤ nameMax)
    (reject s!"entry name exceeds {nameMax} characters".toList)
  let data := encode (Sexpr.emit node)
  Outcome.check (data.size ≤ maxBytesFor env kind)
    (.http 422 "eda.file_too_large"
      s!"canonical {kind.str} form exceeds {maxBytesFor env kind} bytes".toList .nothing)
  return data

def canonicalSymbol (env : Env) (raw : ByteArray) : Except EdaError (Text × ByteArray) := do
  let text ← decodeText raw "symbol"
  let found ← (Sexpr.entries text).mapError fun e =>
    reject s!"not a readable KiCad symbol file: {e.message}".toList
  match found with
  | [] => .error (reject "symbol library contains no symbols".toList)
  | [(name, node)] => do
    Outcome.check (name ≠ []) (reject "symbol has an empty name".toList)
    let data ← canonicalEntryBytes env node .symbol name
    return (name, data)
  | _ :: _ :: _ =>
    let names := found.map fun entry => entry.1.take 80
    let listed := [',', ' '].intercalate (names.take 5) ++
      (if 5 < found.length then ", …".toList else [])
    .error (.http 422 "eda.multiple_symbols"
      (s!"file contains {found.length} symbols (".toList ++ listed ++
        ") — upload one symbol at a time, or use the library importer".toList)
      (.symbols found.length (names.take 20)))

def canonicalFootprint (env : Env) (raw : ByteArray) : Except EdaError (Text × ByteArray) := do
  let text ← decodeText raw "footprint"
  let node ← (Sexpr.parse text).mapError fun e =>
    reject s!"not a readable KiCad footprint file: {e.message}".toList
  Outcome.check (∃ root ∈ Sexpr.head node, root ∈ Sexpr.footprintRoots)
    (reject ("expected a (footprint …) document, got (".toList ++
      ((Sexpr.head node).filter (· ≠ [])).getD ['?'] ++ " …)".toList))
  let name ← (Sexpr.entryName node).mapError fun e => reject e.message.toList
  Outcome.check (name ≠ []) (reject "footprint has an empty name".toList)
  let data ← canonicalEntryBytes env node .footprint name
  return (name, data)

/-- The white space `bytes.lstrip()` removes. -/
def isByteSpace (b : UInt8) : Bool := b ∈ [9, 10, 11, 12, 13, 32]

/-- `raw[:64].lstrip().startswith(magic)` -/
def startsWith (magic : String) (raw : ByteArray) : Bool :=
  magic.toUTF8.data.toList.isPrefixOf ((raw.data.toList.take 64).dropWhile isByteSpace)

def validatedDatafile (kind : DatafileKind) (raw : ByteArray) : Except EdaError ByteArray :=
  match kind with
  | .step => do
    Outcome.check (startsWith "ISO-10303-21" raw)
      (reject "not a STEP file — expected it to start with \"ISO-10303-21\"".toList)
    return raw
  | .wrl => do
    Outcome.check (startsWith "#VRML" raw)
      (reject "not a VRML file — expected it to start with \"#VRML\"".toList)
    return raw
  | .spice => do
    let _ ← decodeText raw "SPICE model"
    return raw

def State.store (env : Env) (s : State) (workspaceId : Uuid) (kind : StorageKind) (data : ByteArray) :
    State :=
  { s with files := s.files.write env.sha256 (workspaceId, kind) data }

/-! ### Look-ups -/

def State.rows (s : State) : Model → List Entry
  | .symbol => s.symbols
  | .footprint => s.footprints
  | .datafile => s.datafiles

def State.setRows (s : State) (model : Model) (rows : List Entry) : State :=
  match model with
  | .symbol => { s with symbols := rows }
  | .footprint => { s with footprints := rows }
  | .datafile => { s with datafiles := rows }

def State.updateRow (s : State) (model : Model) (row : Entry) : State :=
  s.setRows model ((s.rows model).map fun r => if r.id = row.id then row else r)

/-- `_active_by_name`; the names of data files are scoped by kind. -/
def activeByName (s : State) (workspaceId : Uuid) (model : Model) (name : Text)
    (kind : Option DatafileKind) (excludeId : Option Uuid) : Option Entry :=
  (s.rows model).find? fun r => r.workspaceId = workspaceId ∧ r.archivedAt = none ∧
    r.name = name ∧ (model = .datafile → r.kind = kind) ∧ some r.id ≠ excludeId

def assertNameAvailable (s : State) (workspaceId : Uuid) (model : Model) (name : Text)
    (kind : Option DatafileKind) (excludeId : Option Uuid) : Except EdaError Unit :=
  match activeByName s workspaceId model name kind excludeId with
  | none => .ok ()
  | some clash => .error (nameConflict model clash)

def assertCategory (ctx : Ctx) (s : State) (categoryId : Option Uuid) (changed : Bool) :
    Except EdaError Unit :=
  match categoryId with
  | none => .ok ()
  | some id => do
    let category ← Outcome.orRaise
      (s.categories.find? fun c => c.id = id ∧ c.workspaceId = ctx.workspaceId)
      (.http 404 "resource.not_found" "category not found".toList (.resource "category"))
    Outcome.check (changed = true → category.archivedAt = none)
      (.http 409 "category.archived" ("category \"".toList ++ category.name ++
        "\" is archived".toList) (.existingId category.id))

def getEntry (ctx : Ctx) (s : State) (model : Model) (entryId : Uuid) : Except EdaError Entry :=
  Outcome.orRaise
    ((s.rows model).find? fun r => r.id = entryId ∧ r.workspaceId = ctx.workspaceId)
    (.http 404 model.notFound s!"{model.label} not found".toList .nothing)

/-! ### Upload, rename, archive and restore (domain/eda/service.py)

The partial unique indexes are checked by the look-up each request makes first; their own
violation needs a concurrent request. -/

def State.insertEntry (s : State) (model : Model) (row : Entry) : Except EdaError State := do
  Outcome.check (∀ r ∈ s.rows model, r.id ≠ row.id) (.integrity "pkey")
  Outcome.check (row.name.length ≤ nameMax)
    (.integrity "value too long for type character varying(200)")
  return s.setRows model (s.rows model ++ [row])

def newEntry (ctx : Ctx) (model : Model) (name sha256 : Text) (sizeBytes : ℕ)
    (kind : Option DatafileKind) (categoryId : Option Uuid) : Entry where
  id := ctx.uuid4
  workspaceId := ctx.workspaceId
  name := name
  sha256 := sha256
  sizeBytes := sizeBytes
  kind := if model = .datafile then kind else none
  categoryId := if model = .datafile then none else categoryId
  archivedAt := none

/-- The row, and whether it was created. -/
def uploadEntry (ctx : Ctx) (model : Model) (name sha256 : Text) (sizeBytes : ℕ)
    (kind : Option DatafileKind) (categoryId : Option Uuid) (s : State) :
    Except EdaError ((Entry × Bool) × State) := do
  assertCategory ctx s categoryId true
  match activeByName s ctx.workspaceId model name kind none with
  | some existing =>
    if existing.sha256 = sha256 then .ok ((existing, false), s)
    else .error (nameConflict model existing)
  | none => do
    let row := newEntry ctx model name sha256 sizeBytes kind categoryId
    let s ← s.insertEntry model row
    return ((row, true), s)

abbrev EdaName : Type := { name : Text // 1 ≤ name.length ∧ name.length ≤ nameMax }

/-- `EdaSymbolPatch`, `EdaFootprintPatch`, and `EdaDatafilePatch` without a category. -/
structure EntryPatch where
  name : Patch EdaName
  categoryId : Patch Uuid

/-- What `open(path, encoding="utf-8")` makes of line ends. -/
def universalNewlines : Text → Text
  | [] => []
  | '\r' :: '\n' :: rest => '\n' :: universalNewlines rest
  | '\r' :: rest => '\n' :: universalNewlines rest
  | c :: rest => c :: universalNewlines rest

/-- The storage kind of the entries that carry their name in the file. -/
def Model.entryKind : Model → StorageKind
  | symbol => .symbol
  | _ => .footprint

def rewriteStoredEntryName (env : Env) (entry : Entry) (model : Model) (s : State) :
    Except EdaError (Entry × State) := do
  let kind := model.entryKind
  let raw ← Outcome.orRaise (s.files.read (entry.workspaceId, kind) entry.sha256) .fileNotFound
  let text ← Outcome.orRaise (decode raw) .unicodeDecode
  let node ← (Sexpr.parse (universalNewlines text)).mapError .sexpr
  let renamed ← (Sexpr.rename node entry.name).mapError .sexpr
  let data := encode (Sexpr.emit renamed)
  let entry := { entry with sha256 := env.sha256 data, sizeBytes := data.size }
  return (entry, (s.store env entry.workspaceId kind data).updateRow model entry)

def updateEntry (env : Env) (ctx : Ctx) (model : Model) (entryId : Uuid) (payload : EntryPatch)
    (s : State) : Except EdaError (Entry × State) := do
  let entry ← getEntry ctx s model entryId
  Outcome.check (payload.name ≠ .null)
    (.http 422 "eda.field_not_nullable" "name cannot be null".toList .nothing)
  let categoryId := payload.categoryId.nullable entry.categoryId
  assertCategory ctx s (if payload.categoryId = .unset then none else categoryId)
    (categoryId ≠ entry.categoryId)
  let name := (payload.name.get.map Subtype.val).getD entry.name
  -- an archived entry holds no name
  if entry.archivedAt = none then
    assertNameAvailable s ctx.workspaceId model name entry.kind (some entry.id)
  let updated := { entry with name := name, categoryId := categoryId }
  let s := s.updateRow model updated
  if name ≠ entry.name ∧ model ≠ .datafile then rewriteStoredEntryName env updated model s
  else return (updated, s)

def archiveEntry (ctx : Ctx) (model : Model) (entryId : Uuid) (s : State) :
    Except EdaError (Entry × State) := do
  let entry ← getEntry ctx s model entryId
  if entry.archivedAt = none then
    let archived := { entry with archivedAt := some ctx.utcnow }
    return (archived, s.updateRow model archived)
  else return (entry, s)

def restoreEntry (ctx : Ctx) (model : Model) (entryId : Uuid) (s : State) :
    Except EdaError (Entry × State) := do
  let entry ← getEntry ctx s model entryId
  if entry.archivedAt = none then return (entry, s)
  else
    assertNameAvailable s ctx.workspaceId model entry.name entry.kind (some entry.id)
    let restored := { entry with archivedAt := none }
    return (restored, s.updateRow model restored)

/-! ### Footprints and their 3D models -/

def linkFootprintModel (ctx : Ctx) (footprintId datafileId : Uuid) (position : ℕ) (s : State) :
    Except EdaError (Entry × State) := do
  let footprint ← getEntry ctx s .footprint footprintId
  let datafile ← getEntry ctx s .datafile datafileId
  Outcome.check (datafile.kind = some .step ∨ datafile.kind = some .wrl)
    (.http 422 "eda.unsupported_kind" ("\"".toList ++ datafile.name ++ "\" is a ".toList ++
      (datafile.kind.elim "" DatafileKind.str).toList ++
      " model — only STEP and WRL files attach to a footprint".toList) .nothing)
  let isLink : FootprintModel → Bool := fun l => l.workspaceId = ctx.workspaceId ∧
    l.footprintId = footprint.id ∧ l.datafileId = datafile.id
  let links :=
    if s.links.any isLink then
      s.links.map fun l => if isLink l then { l with position := position } else l
    else s.links ++ [⟨ctx.workspaceId, footprint.id, datafile.id, position⟩]
  return (footprint, { s with links := links })

def unlinkFootprintModel (ctx : Ctx) (footprintId datafileId : Uuid) (s : State) :
    Except EdaError (Entry × State) := do
  let footprint ← getEntry ctx s .footprint footprintId
  let isLink : FootprintModel → Bool := fun l => l.workspaceId = ctx.workspaceId ∧
    l.footprintId = footprint.id ∧ l.datafileId = datafileId
  return (footprint, { s with links := s.links.filter fun l => !isLink l })

/-! ### Upload routes (api/routes/eda.py) -/

def readUpload (env : Env) (contents : ByteArray) (kind : StorageKind) :
    Except EdaError ByteArray := do
  Outcome.check (contents.size ≤ maxBytesFor env kind)
    (.http 413 "eda.file_too_large"
      s!"{kind.str} upload exceeds {maxBytesFor env kind} bytes".toList
      (.maxBytes (maxBytesFor env kind)))
  Outcome.check (contents.size ≠ 0) (.http 422 "eda.empty_file" "empty upload".toList .nothing)
  return contents

/-- The `name` form field. -/
abbrev FormName : Type := { name : Text // name.length ≤ nameMax }

/-- `name or fallback` -/
def nameOr (name : Option FormName) (fallback : Text) : Text :=
  ((name.map Subtype.val).filter (· ≠ [])).getD fallback

def uploadSymbol (env : Env) (ctx : Ctx) (contents : ByteArray) (name : Option FormName)
    (categoryId : Option Uuid) (s : State) : Except EdaError ((Entry × Bool) × State) := do
  let contents ← readUpload env contents .symbol
  let (parsedName, data) ← canonicalSymbol env contents
  let (row, s) ← uploadEntry ctx .symbol (nameOr name parsedName) (env.sha256 data) data.size
    none categoryId s
  return (row, s.store env ctx.workspaceId .symbol data)

def uploadFootprint (env : Env) (ctx : Ctx) (contents : ByteArray) (name : Option FormName)
    (categoryId : Option Uuid) (s : State) : Except EdaError ((Entry × Bool) × State) := do
  let contents ← readUpload env contents .footprint
  let (parsedName, data) ← canonicalFootprint env contents
  let (row, s) ← uploadEntry ctx .footprint (nameOr name parsedName) (env.sha256 data) data.size
    none categoryId s
  return (row, s.store env ctx.workspaceId .footprint data)

/-- What follows the last separator. -/
def afterLast (separator : Char) (text : Text) : Text :=
  (text.reverse.takeWhile (· ≠ separator)).reverse

def datafileKindFromFilename (filename : Option Text) : Except EdaError DatafileKind :=
  let name := filename.getD []
  let ext := if '.' ∈ name then String.ofList ((afterLast '.' name).map Char.toLower) else ""
  if ext ∈ ["step", "stp"] then .ok .step
  else if ext ∈ ["wrl", "vrml"] then .ok .wrl
  else if ext ∈ ["lib", "sub", "cir", "mod", "spice"] then .ok .spice
  else .error (.http 422 "eda.unsupported_kind" ("unsupported data file — expected .step/.stp, " ++
    ".wrl, or a SPICE model (.lib/.sub/.cir/.mod/.spice)").toList .nothing)

def basename (filename : Option Text) : Text :=
  let base := afterLast '/' ((filename.getD []).map fun c => if c = '\\' then '/' else c)
  (((base.dropWhile isSpace).reverse.dropWhile isSpace).reverse).take nameMax

def uploadDatafile (env : Env) (ctx : Ctx) (filename : Option Text) (contents : ByteArray)
    (name : Option FormName) (s : State) : Except EdaError ((Entry × Bool) × State) := do
  let kind ← datafileKindFromFilename filename
  let contents ← readUpload env contents (.data kind)
  let data ← validatedDatafile kind contents
  let sha := env.sha256 data
  let fallback := if basename filename ≠ [] then basename filename
    else kind.str.toList ++ '-' :: sha.take 8
  let (row, s) ← uploadEntry ctx .datafile (nameOr name fallback) sha data.size (some kind) none s
  return (row, s.store env ctx.workspaceId (.data kind) data)

end StockManager.Eda
