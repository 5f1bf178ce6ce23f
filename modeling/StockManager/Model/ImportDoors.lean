import StockManager.Effects.ArchiveEntries
import StockManager.Model.McpEda

/-! # The two doors of the EDA library (mcp/tools/write.py, api/routes/{eda,eda_import}.py)

A file comes in by an MCP tool or by a REST route. Of an archive a door sees the number of its
bytes and what `zipfile` reads from them. -/

namespace StockManager.Eda

open Sexpr (Text)

/-- The tables a door writes. -/
structure World where
  library : State
  parts : List Kicad.Part
  partEda : List Kicad.PartEda

/-- An HTTP answer, an archive or a plan that is refused, a `ToolError`, or an exception that no
one catches. -/
inductive DoorError
  | app (e : EdaError)
  | archive (e : Raised)
  | ambiguous (e : Ambiguity)
  | partNotFound (idOrMpn : Kicad.IdText)
  | categoryNotFound (slug : Text)
  | tool (message : Text)
  | attributeError

/-! ### `decode_base64` and look-ups (mcp/tools/_shared.py) -/

def maxDecodedBytes : ℕ := 4 * mib

/-- What `decode_base64` asks of the number of the decoded bytes. -/
def checkDecoded (what : String) (size : ℕ) : Except DoorError Unit := do
  Outcome.check (size ≠ 0)
    (.app (.http 422 "eda.empty_file" s!"{what} decoded to zero bytes".toList .nothing))
  Outcome.check (size ≤ maxDecodedBytes)
    (.app (.http 413 "eda.file_too_large"
      s!"{what} exceeds the {maxDecodedBytes / mib} MiB limit".toList .nothing))

/-- `resolve_category`: an active category, by its library slug. -/
def resolveCategory (ctx : Ctx) (s : State) (slug : Text) : Except DoorError PartCategory :=
  Outcome.orRaise
    (s.categories.find? fun c => c.workspaceId = ctx.workspaceId ∧ c.librarySlug = slug ∧
      c.archivedAt = none)
    (.categoryNotFound slug)

/-- An active part of the workspace. -/
def activePart (ctx : Ctx) (parts : List Kicad.Part) (idOrMpn : Kicad.IdText) :
    Option Kicad.Part :=
  parts.find? fun part => part.workspaceId = ctx.workspaceId ∧ part.archivedAt = none ∧
    Kicad.isPart idOrMpn part

def resolvePart (ctx : Ctx) (parts : List Kicad.Part) (idOrMpn : Kicad.IdText) :
    Except DoorError Kicad.Part :=
  Outcome.orRaise (activePart ctx parts idOrMpn) (.partNotFound idOrMpn)

/-! ### `wire_part` (domain/eda/importer.py) -/

/-- `_Slots` -/
structure Slots where
  symbol : Option CreatedRow
  footprint : Option CreatedRow
  spice : Option CreatedRow

def slotsOf (result : ImportResult) : Slots where
  symbol := result.symbols.head?
  footprint := result.footprints.head?
  spice := result.datafiles.find? fun row => row.kind = some .spice

/-- `_fill` of a slot and its external reference, and whether it changed. -/
def fill (overwrite : Bool) (held : Option Uuid × Option String) :
    Option CreatedRow → (Option Uuid × Option String) × Bool
  | none => (held, false)
  | some row =>
    if held ≠ (none, none) ∧ ¬overwrite then (held, false)
    else if held = (some row.id, none) then (held, false)
    else ((some row.id, none), true)

/-- `_apply` -/
def applySlots (overwrite : Bool) (slots : Slots) (config : Kicad.PartEda) :
    Kicad.PartEda × Bool :=
  let symbol := fill overwrite (config.symbolId, config.symbolRefExternal) slots.symbol
  let footprint := fill overwrite (config.footprintId, config.footprintRefExternal) slots.footprint
  let spice := fill overwrite (config.spiceDatafileId, none) slots.spice
  ({ config with
      symbolId := symbol.1.1
      symbolRefExternal := symbol.1.2
      footprintId := footprint.1.1
      footprintRefExternal := footprint.1.2
      spiceDatafileId := spice.1.1 }, symbol.2 || footprint.2 || spice.2)

/-- A configuration as the columns default. -/
def freshConfig (workspaceId partId : Uuid) : Kicad.PartEda :=
  Kicad.applyPartEda workspaceId partId {}

/-- `wire_part`; the unique row of the part is the one a concurrent insert would have won. -/
def wirePart (ctx : Ctx) (partId : Uuid) (result : ImportResult) (overwrite : Bool)
    (rows : List Kicad.PartEda) : List Kicad.PartEda × Bool :=
  let slots := slotsOf result
  if slots.symbol = none ∧ slots.footprint = none ∧ slots.spice = none then (rows, false)
  else match rows.find? fun row => row.workspaceId = ctx.workspaceId ∧ row.partId = partId with
    | some config =>
      let applied := applySlots overwrite slots config
      if applied.2 then
        (rows.map fun row =>
          if row.workspaceId = ctx.workspaceId ∧ row.partId = partId then applied.1 else row, true)
      else (rows, false)
    | none =>
      let applied := applySlots overwrite slots (freshConfig ctx.workspaceId partId)
      if applied.2 then (rows ++ [applied.1], true) else (rows, false)

/-! ### Single files -/

/-- `kind` of `upload_eda_asset` -/
inductive AssetKind
  | symbol | footprint | model3d | spice
  deriving DecidableEq

def AssetKind.str : AssetKind → String
  | symbol => "symbol"
  | footprint => "footprint"
  | model3d => "model3d"
  | spice => "spice"

/-- `_datafile_kind` -/
def assetDatafileKind (kind : AssetKind) (filename : Text) : Except DoorError DatafileKind := do
  let resolved ← (datafileKindFromFilename (some filename)).mapError .app
  Outcome.check (kind = .spice → resolved = .spice)
    (.tool ("eda.unsupported_kind: kind is 'spice' but the filename looks like a " ++
      resolved.str ++ " file").toList)
  Outcome.check (kind = .model3d → resolved = .step ∨ resolved = .wrl)
    (.tool ("eda.unsupported_kind: kind is 'model3d' so the filename must end in " ++
      ".step, .stp or .wrl").toList)
  return resolved

/-- `_stem` of the tools -/
def assetStem (filename : Text) : Text :=
  let base := afterLast '\\' (afterLast '/' filename)
  if stemOf base ≠ [] then stemOf base else base

/-- What the file is stored as: its table, the kinds of its file, its name and its bytes. -/
structure Asset where
  model : Model
  storageKind : StorageKind
  datafileKind : Option DatafileKind
  name : Text
  data : ByteArray

def readAsset (env : Env) (kind : AssetKind) (filename : Text) (raw : ByteArray) :
    Except DoorError Asset :=
  match kind with
  | .symbol => do
    let (name, data) ← (canonicalSymbol env raw).mapError .app
    return ⟨.symbol, .symbol, none, name, data⟩
  | .footprint => do
    let (name, data) ← (canonicalFootprint env raw).mapError .app
    return ⟨.footprint, .footprint, none, name, data⟩
  | kind => do
    let datafileKind ← assetDatafileKind kind filename
    let data ← (validatedDatafile datafileKind raw).mapError .app
    return ⟨.datafile, .data datafileKind, some datafileKind, assetStem filename, data⟩

/-- `_wire_single_entry`, of a part that was resolved. -/
def wireSingleEntry (ctx : Ctx) (part : Kicad.Part) (kind : AssetKind) (row : Entry)
    (rows : List Kicad.PartEda) : List Kicad.PartEda × Bool :=
  let created : CreatedRow := ⟨row.id, row.name, true, row.sha256, row.kind⟩
  wirePart ctx part.id
    { symbols := if kind = .symbol then [created] else []
      footprints := if kind = .footprint then [created] else []
      datafiles := if kind = .model3d ∨ kind = .spice then [created] else []
      skipped := [] } false rows

/-- `upload_eda_asset`; an empty slug or part is none. -/
def uploadEdaAsset (env : Env) (ctx : Ctx) (kind : AssetKind) (filename : Text) (raw : ByteArray)
    (part : Option Kicad.IdText) (categorySlug : Option Text) (w : World) :
    Except DoorError ((Entry × Bool) × World) := do
  checkDecoded s!"{kind.str} file" raw.size
  let category ← categorySlug.mapM (resolveCategory ctx w.library)
  let asset ← readAsset env kind filename raw
  let (row, library) ← (insertEntry env ctx asset.model asset.storageKind asset.datafileKind
    (category.map (·.id)) asset.name asset.data w.library).mapError .app
  let w := { w with library := library }
  match part with
  | none => return (row, w)
  | some idOrMpn => do
    let part ← resolvePart ctx w.parts idOrMpn
    return (row, { w with partEda := (wireSingleEntry ctx part kind row.1 w.partEda).1 })

/-- The upload route of a kind, without a name or a category. -/
def restUpload (env : Env) (ctx : Ctx) (kind : AssetKind) (filename : Text) (raw : ByteArray)
    (s : State) : Except EdaError ((Entry × Bool) × State) :=
  match kind with
  | .symbol => uploadSymbol env ctx raw none none s
  | .footprint => uploadFootprint env ctx raw none none s
  | _ => uploadDatafile env ctx (some filename) raw none s

/-! ### Archives -/

/-- The bytes of an archive. -/
structure ArchiveFile where
  size : ℕ
  content : VendorArchive

def planForPart (env : ArchiveEnv) (archive : VendorArchive) (hints : List Text) :
    Except DoorError ImportPlan := do
  let plan ← (readPlan env archive).mapError .archive
  (narrowToPart env.toEnv plan hints).mapError .ambiguous

/-- `part.mpn or ""` and `part.internal_part_number or ""` -/
def partHints (part : Kicad.Part) : List Text :=
  [(part.mpn.getD "").toList, (part.internalPartNumber.getD "").toList]

/-- `stem.upper().startswith("LIB_")`: the dotless i is the one letter beyond ASCII whose upper
case is in it. -/
def startsLib (stem : Text) : Bool :=
  ((stem.take 4).map fun c => if c = 'ı' then 'I' else c.toUpper) = "LIB_".toList

/-- `_stem` of the import route: the archive's name without directories, extension and the
`LIB_` of a SamacSys download. -/
def archiveStem (filename : Option Text) : Text :=
  let stem := stemOf (afterLast '/' (slashed (filename.getD [])))
  if startsLib stem then stem.drop 4 else stem

/-- What both doors do with a plan: import it, then wire the part. -/
def importForPart (env : Env) (ctx : Ctx) (part : Kicad.Part) (plan : ImportPlan)
    (categoryId : Option Uuid) (overwrite : Bool) (w : World) :
    Except DoorError ((ImportResult × Bool) × World) := do
  let (result, library) ← (importPlan env ctx plan categoryId w.library).mapError .app
  let (rows, wired) := wirePart ctx part.id result overwrite w.partEda
  return ((result, wired), { w with library := library, partEda := rows })

/-- The reply of `import_part_archive`, which names a note's file. -/
structure ImportReply where
  symbol : Option CreatedRow
  footprint : Option CreatedRow
  datafiles : List CreatedRow
  partEdaUpdated : Bool
  skipped : List Skipped

/-- `_read_upload` of an archive, whose cap is the global one. -/
def checkUpload (env : ArchiveEnv) (size : ℕ) : Except DoorError Unit := do
  Outcome.check (size ≤ env.maxUploadBytes)
    (.app (.http 413 "eda.file_too_large"
      s!"archive upload exceeds {env.maxUploadBytes} bytes".toList (.maxBytes env.maxUploadBytes)))
  Outcome.check (size ≠ 0) (.app (.http 422 "eda.empty_file" "empty upload".toList .nothing))

def importPartArchive (env : ArchiveEnv) (ctx : Ctx) (partId : Uuid) (filename : Option Text)
    (file : ArchiveFile) (categoryId : Option Uuid) (overwrite : Bool) (w : World) :
    Except DoorError (ImportReply × World) := do
  let part ← Outcome.orRaise (activePart ctx w.parts (.id partId))
    (.app (.http 404 "part.not_found" "part not found".toList .nothing))
  checkUpload env file.size
  let plan ← planForPart env file.content (archiveStem filename :: partHints part)
  let ((result, wired), w) ← importForPart env.toEnv ctx part plan categoryId overwrite w
  return (⟨result.symbols.head?, result.footprints.head?, result.datafiles, wired,
    result.skipped⟩, w)

/-- `import_library` of an archive -/
def importLibrary (env : ArchiveEnv) (ctx : Ctx) (file : ArchiveFile) (categoryId : Option Uuid)
    (w : World) : Except DoorError (ImportResult × World) := do
  checkUpload env file.size
  let plan ← (readPlan env file.content).mapError .archive
  let (result, library) ← (importPlan env.toEnv ctx plan categoryId w.library).mapError .app
  return (result, { w with library := library })

/-- The reply of `import_vendor_zip`: its counts come from the rows. -/
structure ToolReply where
  partId : Uuid
  partEdaUpdated : Bool
  symbols : List CreatedRow
  footprints : List CreatedRow
  datafiles : List CreatedRow
  skipped : List (Text × String)

/-- `compact({"name": s.name, …}) for s in result.skipped`: a note has no `name`. -/
def skippedNames : List Skipped → Except DoorError (List (Text × String))
  | [] => .ok []
  | _ :: _ => .error .attributeError

def importVendorZip (env : ArchiveEnv) (ctx : Ctx) (partId : Kicad.IdText) (file : ArchiveFile)
    (overwrite : Bool) (w : World) : Except DoorError (ToolReply × World) := do
  checkDecoded "archive" file.size
  let part ← resolvePart ctx w.parts partId
  let plan ← planForPart env file.content (partHints part)
  let ((result, wired), w) ← importForPart env.toEnv ctx part plan part.categoryId overwrite w
  let skipped ← skippedNames result.skipped
  return (⟨part.id, wired, result.symbols, result.footprints, result.datafiles, skipped⟩, w)

end StockManager.Eda
