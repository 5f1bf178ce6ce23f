import StockManager.Model.KicadDocuments
import StockManager.Model.KicadLibrary

/-! # A part's CAD configuration over MCP (mcp/tools/_shared.py, mcp/tools/write.py) -/

namespace StockManager.Eda

open Sexpr (Text)

/-! ### Reported references -/

/-- `_entry_name`: the row of the id, archived or not. -/
def entryNameOf (s : State) (model : Model) (entryId : Option Uuid) : Option Text :=
  (entryId.bind fun id => (s.rows model).find? (·.id = id)).map (·.name)

/-- The slug of the part's own category, archived or not. -/
def partSlug (s : State) (part : Part) : Option Text :=
  (part.categoryId.bind fun id => s.categories.find? (·.id = id)).map (·.librarySlug)

/-- The names and references of the payload. -/
structure PartEdaPayload where
  configured : Bool
  symbolName : Option Text
  symbolRef : Option Text
  footprintName : Option Text
  footprintRef : Option Text

/-- `part_eda_payload`; `compact` drops an empty name. -/
def partEdaPayload (s : State) (part : Part) : Option PartEda → PartEdaPayload
  | none => ⟨false, none, none, none, none⟩
  | some config =>
    let slug := partSlug s part
    let symbolName := truthy (entryNameOf s .symbol config.symbolId)
    let footprintName := truthy (entryNameOf s .footprint config.footprintId)
    ⟨true, symbolName, symbolName.map fun name => entryRef name slug,
      footprintName, footprintName.map fun name => entryRef name slug⟩

end StockManager.Eda

namespace StockManager.Kicad

/-! ### Writing the configuration (domain/eda/schemas.py, domain/eda/service.py) -/

structure PartEdaIn where
  symbolId : Option Uuid := none
  symbolRefExternal : Option String := none
  footprintId : Option Uuid := none
  footprintRefExternal : Option String := none
  spiceDatafileId : Option Uuid := none
  value : Option String := none
  keywords : Option String := none
  footprintFilters : Option (List String) := none
  excludeFromBom : Bool := false
  excludeFromBoard : Bool := false
  excludeFromSim : Bool := true
  simDevice : Option String := none
  simPins : Option String := none
  simParams : Option String := none
  deriving DecidableEq

/-- `max_length` -/
def within (limit : ℕ) (text : Option String) : Bool := text.all (·.length ≤ limit)

/-- `FootprintFilter` -/
def isFootprintFilter (text : String) : Bool := 1 ≤ text.length ∧ text.length ≤ 100

/-- The limits of the fields. -/
def PartEdaIn.valid (p : PartEdaIn) : Bool :=
  within 200 p.symbolRefExternal ∧ within 200 p.footprintRefExternal ∧ within 120 p.value ∧
    within 300 p.keywords ∧
    p.footprintFilters.all (fun l => l.length ≤ 50 ∧ l.all isFootprintFilter) ∧
    within 60 p.simDevice ∧ within 300 p.simPins ∧ within 500 p.simParams

/-- The text of an id, or a text that is none. -/
inductive IdText
  | id (u : Uuid)
  | other (text : String)
  deriving DecidableEq

inductive ConfigError
  | validation
  | partNotFound (idOrMpn : IdText)
  | http (status : ℕ) (code message : String)
  | tool (message : String)
  deriving DecidableEq

/-- `get_entry`, `archived_at` and `_resolve_ref` of one slot. -/
def resolveSlot (entries : List EdaEntry) (workspaceId : Uuid) (slot notFound : String)
    (entryId : Option Uuid) (external : Option String) : Except ConfigError Unit :=
  match entryId with
  | none => .ok ()
  | some id => do
    Outcome.check (external = none) (.http 422 "eda.ref_conflict"
      s!"set either {slot}_id (a hosted {slot}) or {slot}_ref_external (a KiCad LibNick:Entry), not both")
    let entry ← Outcome.orRaise
      (entries.find? fun e => e.id = id ∧ e.workspaceId = workspaceId)
      (.http 404 notFound s!"{slot} not found")
    Outcome.check (entry.archivedAt = none)
      (.http 409 "eda.archived" s!"{slot} \"{entry.name}\" is archived")

/-- The check of `spice_datafile_id`. -/
def resolveSpice (db : Db) (workspaceId : Uuid) : Option Uuid → Except ConfigError Unit
  | none => .ok ()
  | some id => do
    let spice ← Outcome.orRaise
      (db.datafiles.find? fun d => d.id = id ∧ d.workspaceId = workspaceId)
      (.http 404 "eda_datafile.not_found" "data file not found")
    Outcome.check (spice.archivedAt = none)
      (.http 409 "eda.archived" s!"data file \"{spice.name}\" is archived")
    Outcome.check (spice.kind = "spice") (.http 422 "eda.unsupported_kind"
      s!"\"{spice.name}\" is a {spice.kind} model — spice_datafile_id needs a SPICE model")

/-- `get_part_eda` of the service -/
def configOf (db : Db) (workspaceId partId : Uuid) : Option PartEda :=
  db.partEda.find? fun e => e.workspaceId = workspaceId ∧ e.partId = partId

/-- `_apply_part_eda`: every column is written. -/
def applyPartEda (workspaceId partId : Uuid) (p : PartEdaIn) : PartEda where
  workspaceId := workspaceId
  partId := partId
  symbolId := p.symbolId
  symbolRefExternal := p.symbolRefExternal
  footprintId := p.footprintId
  footprintRefExternal := p.footprintRefExternal
  spiceDatafileId := p.spiceDatafileId
  value := p.value
  keywords := p.keywords
  footprintFilters := p.footprintFilters
  excludeFromBom := p.excludeFromBom
  excludeFromBoard := p.excludeFromBoard
  excludeFromSim := p.excludeFromSim
  simDevice := p.simDevice
  simPins := p.simPins
  simParams := p.simParams

/-- The row of the part written over. -/
def Db.withConfig (db : Db) (config : PartEda) : Db :=
  { db with partEda := db.partEda.map fun row =>
      if row.workspaceId = config.workspaceId ∧ row.partId = config.partId then config else row }

def upsertPartEda (db : Db) (workspaceId : Uuid) (part : Part) (p : PartEdaIn) :
    Except ConfigError (Db × PartEda) := do
  resolveSlot db.symbols workspaceId "symbol" "eda_symbol.not_found" p.symbolId p.symbolRefExternal
  resolveSlot db.footprints workspaceId "footprint" "eda_footprint.not_found" p.footprintId
    p.footprintRefExternal
  resolveSpice db workspaceId p.spiceDatafileId
  let config := applyPartEda workspaceId part.id p
  match configOf db workspaceId part.id with
  | some _ => return (db.withConfig config, config)
  | none => return ({ db with partEda := db.partEda ++ [config] }, config)

/-- `put_part_eda` of a part that was found. -/
def putPartEda (db : Db) (workspaceId : Uuid) (part : Part) (p : PartEdaIn) :
    Except ConfigError (Db × PartEda) := do
  Outcome.check (p.valid = true) .validation
  upsertPartEda db workspaceId part p

/-! ### The payload (mcp/tools/_shared.py) -/

/-- What `compact` leaves of the payload: a key that is dropped is none. -/
structure PartEdaPayload where
  partId : IdText
  partUrl : String
  configured : Bool
  symbolId : Option IdText := none
  symbolName : Option String := none
  symbolRef : Option String := none
  symbolRefExternal : Option String := none
  footprintId : Option IdText := none
  footprintName : Option String := none
  footprintRef : Option String := none
  footprintRefExternal : Option String := none
  spiceDatafileId : Option IdText := none
  spiceName : Option String := none
  value : Option String := none
  keywords : Option String := none
  footprintFilters : Option (List String) := none
  excludeFromBom : Option Bool := none
  excludeFromBoard : Option Bool := none
  excludeFromSim : Option Bool := none
  simDevice : Option String := none
  simPins : Option String := none
  simParams : Option String := none
  deriving DecidableEq

/-- `_entry_name`: the row of the id, archived or not. -/
def entryName (entries : List EdaEntry) (entryId : Option Uuid) : Option String :=
  (entryId.bind fun id => entries.find? (·.id = id)).map (·.name)

/-- The slug of the part's own category, archived or not. -/
def partSlug (db : Db) (part : Part) : Option String :=
  (part.categoryId.bind fun id => db.categories.find? (·.id = id)).map (·.librarySlug)

/-- `part_eda_payload`, with `partUrl` for `part_url`. -/
def partEdaPayload (partUrl : Uuid → String) (db : Db) (part : Part) :
    Option PartEda → PartEdaPayload
  | none => { partId := .id part.id, partUrl := partUrl part.id, configured := false }
  | some config =>
    let slug := partSlug db part
    let symbolName := entryName db.symbols config.symbolId
    let footprintName := entryName db.footprints config.footprintId
    let spiceName := (config.spiceDatafileId.bind fun id => db.datafiles.find? (·.id = id)).map (·.name)
    { partId := .id part.id
      partUrl := partUrl part.id
      configured := true
      symbolId := config.symbolId.map .id
      symbolName := truthy symbolName
      symbolRef := (truthy symbolName).map fun name => entryRef name slug
      symbolRefExternal := truthy config.symbolRefExternal
      footprintId := config.footprintId.map .id
      footprintName := truthy footprintName
      footprintRef := (truthy footprintName).map fun name => entryRef name slug
      footprintRefExternal := truthy config.footprintRefExternal
      spiceDatafileId := config.spiceDatafileId.map .id
      spiceName := truthy spiceName
      value := truthy config.value
      keywords := truthy config.keywords
      footprintFilters := config.footprintFilters.filter (· ≠ [])
      excludeFromBom := some config.excludeFromBom
      excludeFromBoard := some config.excludeFromBoard
      excludeFromSim := some config.excludeFromSim
      simDevice := truthy config.simDevice
      simPins := truthy config.simPins
      simParams := truthy config.simParams }

def isPart : IdText → Part → Bool
  | .id u, part => part.id = u
  | .other text, part => part.mpn = some text

/-- `resolve_part`, active parts only -/
def resolvePart (db : Db) (workspaceId : Uuid) (idOrMpn : IdText) : Except ConfigError Part :=
  Outcome.orRaise
    (db.parts.find? fun part => part.workspaceId = workspaceId ∧ part.archivedAt = none ∧
      isPart idOrMpn part)
    (.partNotFound idOrMpn)

/-- `get_part_eda` of the tools -/
def getPartEda (partUrl : Uuid → String) (db : Db) (workspaceId : Uuid) (partId : IdText) :
    Except ConfigError PartEdaPayload := do
  let part ← resolvePart db workspaceId partId
  return partEdaPayload partUrl db part (configOf db workspaceId part.id)

/-! ### `set_part_eda` (mcp/tools/write.py) -/

/-- The parameters and their defaults. -/
structure SetPartEda where
  partId : IdText
  symbolId : Option IdText := none
  symbolRefExternal : Option String := none
  footprintId : Option IdText := none
  footprintRefExternal : Option String := none
  spiceDatafileId : Option IdText := none
  value : Option String := none
  keywords : Option String := none
  footprintFilters : Option (List String) := none
  excludeFromBom : Bool := false
  excludeFromBoard : Bool := false
  excludeFromSim : Bool := true

def uuidArg (field : String) : Option IdText → Except ConfigError (Option Uuid)
  | none => .ok none
  | some (.id u) => .ok (some u)
  | some (.other text) =>
    if text = "" then .ok none
    else .error (.tool s!"resource.not_found: {field} is not a valid id")

/-- A field of `supplied`: one equal to its default is not passed on. -/
def supplied {α : Type} [DecidableEq α] (default value : α) : Option α :=
  if value ≠ default then some value else none

def setPartEda (partUrl : Uuid → String) (db : Db) (workspaceId : Uuid) (args : SetPartEda) :
    Except ConfigError (Db × PartEdaPayload) := do
  let part ← resolvePart db workspaceId args.partId
  let symbolId ← uuidArg "symbol_id" args.symbolId
  let footprintId ← uuidArg "footprint_id" args.footprintId
  let spiceDatafileId ← uuidArg "spice_datafile_id" args.spiceDatafileId
  let payload : PartEdaIn :=
    { symbolId := (supplied none symbolId).getD none
      symbolRefExternal := (supplied none args.symbolRefExternal).getD none
      footprintId := (supplied none footprintId).getD none
      footprintRefExternal := (supplied none args.footprintRefExternal).getD none
      spiceDatafileId := (supplied none spiceDatafileId).getD none
      value := (supplied none args.value).getD none
      keywords := (supplied none args.keywords).getD none
      footprintFilters := (supplied none args.footprintFilters).getD none
      excludeFromBom := (supplied false args.excludeFromBom).getD false
      excludeFromBoard := (supplied false args.excludeFromBoard).getD false
      excludeFromSim := (supplied true args.excludeFromSim).getD true }
  Outcome.check (payload.valid = true) .validation
  let (db', config) ← upsertPartEda db workspaceId part payload
  return (db', partEdaPayload partUrl db' part (some config))

/-- The call with what a payload reports under the names of the parameters. -/
def SetPartEda.echo (p : PartEdaPayload) : SetPartEda where
  partId := p.partId
  symbolId := p.symbolId
  symbolRefExternal := p.symbolRefExternal
  footprintId := p.footprintId
  footprintRefExternal := p.footprintRefExternal
  spiceDatafileId := p.spiceDatafileId
  value := p.value
  keywords := p.keywords
  footprintFilters := p.footprintFilters
  excludeFromBom := p.excludeFromBom.getD false
  excludeFromBoard := p.excludeFromBoard.getD false
  excludeFromSim := p.excludeFromSim.getD true

end StockManager.Kicad
