import StockManager.Library.FloatLiteral
import StockManager.Model.Texts

/-! # BOM imports (domain/projects/bom_import.py) -/

namespace StockManager.BomImport

open FloatLiteral (Literal)

inductive BomError
  /-- Exceptions that nothing on the way catches -/
  | indexError | valueError | overflowError
  /-- What the database driver refuses -/
  | dataError
  /-- 422, with the number of rows -/
  | tooManyRows (actualRows : ℕ)
  /-- 422, with the rows' numbers -/
  | fractionalQuantity (fractionalRows : List ℕ)
  /-- 409 `part.mpn_conflict` -/
  | mpnConflict
  deriving DecidableEq

def maxRowCount : ℕ := 10000

inductive MappingTarget
  | ignore | quantity | part | mpn | manufacturer | internalPartNumber | designators | comments
  | footprint | idCode | cadKey | dnp
  deriving DecidableEq

structure BomMappingField where
  columnIndex : ℤ
  target : MappingTarget
  deriving DecidableEq

structure ParsedRow where
  quantity : ℤ
  quantityRaw : String
  part : Option String
  mpn : Option String
  manufacturer : Option String
  internalPartNumber : Option String
  designators : Option (List String)
  comments : Option String
  footprint : Option String
  idCode : Option String
  cadKey : Option String
  dnp : Bool
  deriving DecidableEq

/-- `ParsedRow()` -/
def emptyRow : ParsedRow := ⟨1, "", none, none, none, none, none, none, none, none, none, false⟩

/-- How `float` reads the digits of other scripts -/
structure Digits where
  ascii : Char → Char
  keeps : ∀ c, c.toNat < 128 → ascii c = c

/-! ### Cells -/

/-- `s.strip().replace(",", ".")` -/
def quantityText (digits : Digits) (s : String) : List Char :=
  (strip s).toList.map fun c => digits.ascii (if c = ',' then '.' else c)

/-- `float(raw)` where it does not raise -/
def cellDouble (digits : Digits) (s : String) : Option Binary64.Double :=
  (FloatLiteral.parse (quantityText digits s)).map FloatLiteral.toDouble

/-- `int(f)` raises for what is not finite. -/
def quantityOf : Binary64.Double → Except BomError (ℤ × Bool)
  | .nan => .error .valueError
  | .infinite _ => .error .overflowError
  | .finite f => .ok (if f.den = 1 then (max 0 f.num, true) else (0, false))

def parseQuantity (digits : Digits) (s : String) : Except BomError (ℤ × Bool) :=
  if strip s = "" then .ok (1, true)
  else match cellDouble digits s with
    | none => .ok (1, true)
    | some f => quantityOf f

/-- `_parse_dnp`; no character outside ASCII becomes a letter of the words. -/
def parseDnp (s : String) : Bool :=
  String.ofList ((strip s).toList.map Char.toLower) ∈
    ["1", "true", "yes", "y", "dnp", "do not place"]

/-- The pieces of `value.split(sep)`: `skip` characters of a separator are left. -/
def splitFrom (sep : List Char) : ℕ → List Char → List Char → List (List Char)
  | _, piece, [] => [piece]
  | skip + 1, piece, _ :: rest => splitFrom sep skip piece rest
  | 0, piece, c :: rest =>
    if sep <+: c :: rest then piece :: splitFrom sep (sep.length - 1) [] rest
    else splitFrom sep 0 (piece ++ [c]) rest

def splitDesignators (value sep : String) : Except BomError (List String) :=
  if value = "" then .ok []
  else if sep = "" then .error .valueError
  else .ok (((splitFrom sep.toList 0 [] value.toList).map fun piece => strip (String.ofList piece)).filter
    (· ≠ ""))

/-- `v.strip() or None` -/
def stripped (v : String) : Option String := if strip v = "" then none else some (strip v)

/-- `cells[idx]`, unless the row ends before it -/
def cellAt (cells : List String) (columnIndex : ℤ) : Except BomError (Option String) :=
  if (cells.length : ℤ) ≤ columnIndex then .ok none
  else if 0 ≤ columnIndex then .ok cells[columnIndex.toNat]?
  else if 0 ≤ cells.length + columnIndex then .ok cells[(cells.length + columnIndex).toNat]?
  else .error .indexError

def applyTarget (digits : Digits) (sep : String) (out : ParsedRow) (target : MappingTarget) (v : String) :
    Except BomError ParsedRow :=
  match target with
  | .ignore => .ok out
  | .quantity => (parseQuantity digits v).map fun parsed =>
    { out with
      quantity := parsed.1
      quantityRaw := if parsed.2 then out.quantityRaw else v }
  | .part => .ok { out with part := stripped v }
  | .mpn => .ok { out with mpn := stripped v }
  | .manufacturer => .ok { out with manufacturer := stripped v }
  | .internalPartNumber => .ok { out with internalPartNumber := stripped v }
  | .designators => (splitDesignators v sep).map fun names => { out with designators := some names }
  | .comments => .ok { out with comments := some v }
  | .footprint => .ok { out with footprint := stripped v }
  | .idCode => .ok { out with idCode := stripped v }
  | .cadKey => .ok { out with cadKey := stripped v }
  | .dnp => .ok { out with dnp := parseDnp v }

def applyField (digits : Digits) (sep : String) (cells : List String) (out : ParsedRow)
    (field : BomMappingField) : Except BomError ParsedRow := do
  match ← cellAt cells field.columnIndex with
  | none => return out
  | some v => applyTarget digits sep out field.target v

def applyMapping (digits : Digits) (cells : List String) (mapping : List BomMappingField) (sep : String) :
    Except BomError ParsedRow :=
  mapping.foldlM (applyField digits sep cells) emptyRow

/-! ### The catalogue -/

structure Part where
  id : Uuid
  workspaceId : Uuid
  name : String
  internalPartNumber : Option String
  manufacturer : Option String
  mpn : Option String
  archived : Bool
  deriving DecidableEq

structure PartCadKey where
  workspaceId : Uuid
  partId : Uuid
  cadKey : String
  deriving DecidableEq

structure ProjectEntry where
  workspaceId : Uuid
  projectId : Uuid
  entryType : String
  partId : Option Uuid
  name : String
  quantity : ℤ
  comments : Option String
  designators : List String
  cadFootprint : Option String
  cadKey : Option String
  dnp : Bool
  orderIndex : ℤ
  deriving DecidableEq

structure Db where
  parts : List Part
  cadKeys : List PartCadKey
  entries : List ProjectEntry

/-- What the import takes from outside: `csv.reader`, `UUID(text)`, the two lower-casings, the row
that a query without an order returns first, the ids of new parts, and the values that the database
refuses (texts too long for their columns, characters it cannot hold). -/
structure Host where
  digits : Digits
  readCsv : String → String → Except BomError (List (List String))
  parseUuid : String → Option Uuid
  sqlLower : String → String
  lower : String → String
  first : List Part → Option Part
  first_eq_none : ∀ parts, first parts = none ↔ parts = []
  first_mem : ∀ parts part, first parts = some part → part ∈ parts
  newId : ℕ → Uuid
  refusesQuery : ParsedRow → Bool
  refusesPart : Part → Bool
  refusesEntry : ProjectEntry → Bool

section Match

variable (host : Host) (db : Db) (workspaceId : Uuid)

/-- `db.get(Part, uuid_val)`, of this workspace; the id is the primary key. -/
def matchIdCode (idCode : String) : Option Part :=
  (host.parseUuid idCode).bind fun id => db.parts.find? fun part => part.id = id ∧ part.workspaceId = workspaceId

def matchCadKey (cadKey : String) : Option Part :=
  host.first (db.parts.filter fun part => part.workspaceId = workspaceId ∧
    ∃ key ∈ db.cadKeys, key.partId = part.id ∧ key.workspaceId = workspaceId ∧ key.cadKey = cadKey)

def matchInternalPartNumber (number : String) : Option Part :=
  host.first (db.parts.filter fun part => part.workspaceId = workspaceId ∧
    part.internalPartNumber = some number)

def matchMpn (mpn : String) (manufacturer : Option String) : Option Part :=
  host.first (db.parts.filter fun part => part.workspaceId = workspaceId ∧ part.mpn = some mpn ∧
    ∀ name ∈ manufacturer, part.manufacturer.map host.sqlLower = some (host.lower name))

def matchName (name : String) : Option Part :=
  host.first (db.parts.filter fun part => part.workspaceId = workspaceId ∧ part.name = name)

def matchPart (row : ParsedRow) : Option Part :=
  (row.idCode.bind (matchIdCode host db workspaceId)).or
    ((row.cadKey.bind (matchCadKey host db workspaceId)).or
      ((row.internalPartNumber.bind (matchInternalPartNumber host db workspaceId)).or
        ((row.mpn.bind fun mpn => matchMpn host db workspaceId mpn row.manufacturer).or
          (row.part.bind (matchName host db workspaceId)))))

end Match

/-! ### Auto-creation -/

def clean (value : Option String) : Option String := stripped (value.getD "")

/-- The columns of an auto-created part -/
structure AutoCreateValues where
  name : String
  mpn : Option String
  manufacturer : Option String
  internalPartNumber : Option String

/-- `_auto_create_values`; `none` is `_SkipRow`. -/
def autoCreateValues (row : ParsedRow) : Option AutoCreateValues :=
  ((clean row.mpn).or (clean row.part)).map fun name =>
    ⟨name, clean row.mpn, clean row.manufacturer, clean row.internalPartNumber⟩

def newPart (workspaceId id : Uuid) (values : AutoCreateValues) : Part :=
  ⟨id, workspaceId, values.name, values.internalPartNumber, values.manufacturer, values.mpn, false⟩

/-- The unique index over the active parts with an MPN -/
def mpnTaken (db : Db) (workspaceId : Uuid) (mpn : Option String) : Bool :=
  mpn.isSome ∧ ∃ part ∈ db.parts, part.workspaceId = workspaceId ∧ part.archived = false ∧ part.mpn = mpn

/-! ### Preview -/

structure PreviewCreatedKeys where
  internalPartNumbers : List String
  mpns : List String
  names : List String

def previewRowMatchesCreated (row : ParsedRow) (created : PreviewCreatedKeys) : Bool :=
  (∃ number ∈ row.internalPartNumber, number ∈ created.internalPartNumbers) ∨
    (∃ mpn ∈ row.mpn, mpn ∈ created.mpns) ∨ ∃ name ∈ row.part, name ∈ created.names

def rememberPreviewCreated (values : AutoCreateValues) (created : PreviewCreatedKeys) :
    PreviewCreatedKeys where
  internalPartNumbers := created.internalPartNumbers ++ values.internalPartNumber.toList
  mpns := created.mpns ++ values.mpn.toList
  names := created.names ++ [values.name]

structure PreviewState where
  created : PreviewCreatedKeys
  wouldAutoCreate : ℕ
  wouldSkip : ℕ

def previewRow (host : Host) (db : Db) (workspaceId : Uuid) (state : PreviewState) (row : ParsedRow) :
    Except BomError PreviewState :=
  if previewRowMatchesCreated row state.created then .ok state
  else if host.refusesQuery row then .error .dataError
  else if (matchPart host db workspaceId row).isSome then .ok state
  else match autoCreateValues row with
    | none => .ok { state with wouldSkip := state.wouldSkip + 1 }
    | some values => .ok
      { state with
        created := rememberPreviewCreated values state.created
        wouldAutoCreate := state.wouldAutoCreate + 1 }

/-- `_preview_auto_create_counts`: parts that would be created, rows that would be skipped -/
def previewAutoCreateCounts (host : Host) (db : Db) (workspaceId : Uuid) (autoCreate : Bool)
    (mapping : List BomMappingField) (sep : String) (body : List (List String)) :
    Except BomError (ℕ × ℕ) :=
  if autoCreate = false ∨ mapping = [] then .ok (0, 0)
  else do
    let state ← body.foldlM
      (fun state cells => do
        let row ← applyMapping host.digits cells mapping sep
        previewRow host db workspaceId state row)
      ⟨⟨[], [], []⟩, 0, 0⟩
    return (state.wouldAutoCreate, state.wouldSkip)

/-! ### The body of a file -/

structure BomFile where
  text : String
  separator : String
  hasHeader : Bool

/-- The rows that are not blank, without the header -/
def bodyRows (host : Host) (file : BomFile) : Except BomError (List (List String)) := do
  let rows ← host.readCsv file.text (if file.separator = "" then "," else file.separator)
  let allRows := rows.filter fun cells => ∃ cell ∈ cells, strip cell ≠ ""
  Outcome.check (allRows.length ≤ maxRowCount) (.tooManyRows allRows.length)
  return if file.hasHeader then allRows.tail else allRows

/-- `preview`, of a file whose separator and header are settled -/
def preview (host : Host) (db : Db) (workspaceId : Uuid) (file : BomFile) (autoCreate : Bool)
    (mapping : Option (List BomMappingField)) (sep : String) : Except BomError (ℕ × ℕ) := do
  let body ← bodyRows host file
  previewAutoCreateCounts host db workspaceId autoCreate (mapping.getD []) sep body

/-! ### Commit -/

/-- The columns hold twelve digits before the point. -/
def quantityLimit : ℤ := 10 ^ 12

/-- The quantity of a row's entry -/
def entryQuantity (row : ParsedRow) : ℤ :=
  let designators := row.designators.getD []
  if row.quantity = 1 ∧ designators ≠ [] then designators.length else row.quantity

/-- The rows' numbers of fractional quantities, or the rows -/
def prescan (digits : Digits) (mapping : List BomMappingField) (sep : String) (body : List (List String)) :
    Except BomError (List ParsedRow) := do
  let rows ← body.mapM fun cells => applyMapping digits cells mapping sep
  let fractionalRows := ((rows.zipIdx 1).filter fun item => item.1.quantityRaw ≠ "").map Prod.snd
  Outcome.check (fractionalRows = []) (.fractionalQuantity fractionalRows)
  return rows

structure CommitState where
  db : Db
  nextIdx : ℤ
  inserted : ℕ
  matched : ℕ
  unmatched : ℕ
  autoCreated : ℕ
  skipped : ℕ

/-- The entry of one row; `candidate` is the part found or created. -/
def projectEntry (workspaceId projectId : Uuid) (candidate : Option Part) (row : ParsedRow)
    (orderIndex : ℤ) : ProjectEntry where
  workspaceId := workspaceId
  projectId := projectId
  entryType := if candidate.isSome then "part" else "unmatched"
  partId := candidate.map (·.id)
  name := (row.part.or ((candidate.map (·.name)).or row.mpn)).getD ""
  quantity := entryQuantity row
  comments := row.comments
  designators := row.designators.getD []
  cadFootprint := row.footprint
  cadKey := row.cadKey
  dnp := row.dnp
  orderIndex := orderIndex

def insertEntry (host : Host) (workspaceId projectId : Uuid) (candidate : Option Part) (row : ParsedRow)
    (state : CommitState) : Except BomError CommitState := do
  let entry := projectEntry workspaceId projectId candidate row state.nextIdx
  Outcome.check (host.refusesEntry entry = false ∧ entry.quantity < quantityLimit) .dataError
  return { state with
    db := { state.db with entries := state.db.entries ++ [entry] }
    nextIdx := state.nextIdx + 1
    inserted := state.inserted + 1 }

def autoCreatePart (host : Host) (workspaceId : Uuid) (values : AutoCreateValues) (state : CommitState) :
    Except BomError (Part × CommitState) := do
  let part := newPart workspaceId (host.newId state.autoCreated) values
  Outcome.check (host.refusesPart part = false) .dataError
  Outcome.check (mpnTaken state.db workspaceId values.mpn = false) .mpnConflict
  return (part, { state with
    db := { state.db with parts := state.db.parts ++ [part] }
    autoCreated := state.autoCreated + 1 })

def commitRow (host : Host) (workspaceId projectId : Uuid) (autoCreate : Bool) (state : CommitState)
    (row : ParsedRow) : Except BomError CommitState := do
  Outcome.check (host.refusesQuery row = false) .dataError
  match matchPart host state.db workspaceId row with
  | some part =>
    insertEntry host workspaceId projectId (some part) row { state with matched := state.matched + 1 }
  | none =>
    if autoCreate then
      match autoCreateValues row with
      | none => return { state with skipped := state.skipped + 1 }
      | some values =>
        let created ← autoCreatePart host workspaceId values state
        insertEntry host workspaceId projectId (some created.1) row created.2
    else insertEntry host workspaceId projectId none row { state with unmatched := state.unmatched + 1 }

/-- `max(order_index) + 1` over the project's entries, 0 when there are none -/
def nextOrderIndex (db : Db) (workspaceId projectId : Uuid) : ℤ :=
  (((db.entries.filter fun entry => entry.workspaceId = workspaceId ∧ entry.projectId = projectId).map
    (·.orderIndex)).max?).getD (-1) + 1

/-- `commit`: an error leaves the database as it was. -/
def commit (host : Host) (db : Db) (workspaceId projectId : Uuid) (file : BomFile) (autoCreate : Bool)
    (mapping : List BomMappingField) (sep : String) : Except BomError CommitState := do
  let body ← bodyRows host file
  let rows ← prescan host.digits mapping sep body
  rows.foldlM (commitRow host workspaceId projectId autoCreate)
    ⟨db, nextOrderIndex db workspaceId projectId, 0, 0, 0, 0, 0⟩

end StockManager.BomImport
