import StockManager.Library.Singling
import StockManager.Model.EdaLibrary

/-! # Imports into the EDA library (domain/eda/importer.py)

Which members of an archive, a library file or an LCSC answer make up the plan is decided by
`vendor_zip.py` and `lcsc.py`: a plan here is any list of entries those readers can build. -/

namespace StockManager.Eda

open Sexpr (Text Node)

/-- A parsed symbol or footprint: its node is the root of a parsed text or a direct child of
the root, and its name, not empty, is the node's. -/
structure PendingEntry where
  name : Text
  node : Node
  filename : Text
  named : Sexpr.entryName node = .ok name
  nonempty : name ≠ []
  parsed : ∃ text root, Sexpr.parse text = .ok root ∧ (node = root ∨ Sexpr.Item.node node ∈ root)

/-- `sexpr.entries` yields symbols only. -/
abbrev PendingSymbol : Type :=
  { entry : PendingEntry // Sexpr.head entry.node = some Sexpr.symbolRoot }

/-- The archive reader checks the root of a footprint; the LCSC converter writes `(module …)`. -/
abbrev PendingFootprint : Type :=
  { entry : PendingEntry // ∃ root ∈ Sexpr.head entry.node, root ∈ Sexpr.footprintRoots }

structure PendingDatafile where
  kind : DatafileKind
  name : Text
  data : ByteArray

structure Skipped where
  filename : Text
  reason : String

structure ImportPlan where
  symbols : List PendingSymbol
  footprints : List PendingFootprint
  datafiles : List PendingDatafile
  skipped : List Skipped

structure CreatedRow where
  id : Uuid
  name : Text
  created : Bool
  sha256 : Text
  kind : Option DatafileKind
  deriving DecidableEq

structure ImportResult where
  symbols : List CreatedRow
  footprints : List CreatedRow
  datafiles : List CreatedRow
  skipped : List Skipped

def createdRow (stored : Entry × Bool) : CreatedRow :=
  ⟨stored.1.id, stored.1.name, stored.2, stored.1.sha256, stored.1.kind⟩

/-- `Skipped.__post_init__` clamps the name. -/
def skip (filename : Text) (reason : String) : Skipped := ⟨filename.take 80, reason⟩

def skipInvalidEntry : String := "entry failed validation"

def skipModelsUnmatched : String :=
  "3D model paths left unchanged — the archive carried none of the files the footprint references"

def skipModelDropped : String := "3D model reference dropped — the archive did not carry this file"

def modelPathVar : Text := "${STOCKMGR_3D}".toList

/-! ### Name conflicts -/

def isNameConflict : EdaError → Bool
  | .http 409 "eda.name_conflict" _ _ => true
  | _ => false

/-- `text[:bound]`, where a negative bound counts from the end. -/
def slice (text : Text) (bound : ℤ) : Text :=
  if 0 ≤ bound then text.take bound.toNat else text.take (text.length - (-bound).toNat)

/-- `name.rpartition(".")`, without the dot. -/
def splitExtension (name : Text) : Text × Text :=
  (name.take (name.length - (afterLast '.' name).length - 1), afterLast '.' name)

def conflictSuffix (n : ℕ) : Text := s!" ({n})".toList

/-- The conflict suffixes ` (2)` to ` (9)`, up to `_MAX_SUFFIX`. -/
def conflictSuffixes : List Text := (List.range' 2 8).map conflictSuffix

/-- `_candidate_names`, after the name itself. -/
def suffixedNames (name : Text) (keepExtension : Bool) : List Text :=
  let (stem, ext) := splitExtension name
  if keepExtension ∧ '.' ∈ name ∧ stem ≠ [] then
    let tail := '.' :: ext
    conflictSuffixes.map fun suffix =>
      slice stem ((nameMax : ℤ) - suffix.length - tail.length) ++ suffix ++ tail
  else
    conflictSuffixes.map fun suffix => name.take (nameMax - suffix.length) ++ suffix

/-- The row, then the blob. -/
def insertEntry (env : Env) (ctx : Ctx) (model : Model) (storageKind : StorageKind)
    (kind : Option DatafileKind) (categoryId : Option Uuid) (name : Text) (data : ByteArray)
    (s : State) : Except EdaError ((Entry × Bool) × State) := do
  let (row, s) ← uploadEntry ctx model name (env.sha256 data) data.size kind categoryId s
  return (row, s.store env ctx.workspaceId storageKind data)

/-- `rendered`: a refused entry is skipped. -/
def rendered : Except EdaError ByteArray → Except EdaError (Option ByteArray)
  | .ok data => .ok (some data)
  | .error (.http ..) => .ok none
  | .error e => .error e

/-- The walk of `_store_entry` over the candidate names; a conflict on the last one is the
answer. -/
def storeCandidates (render : Text → Except EdaError ByteArray)
    (insert : Text → ByteArray → State → Except EdaError ((Entry × Bool) × State))
    (name : Text) (later : List Text) (s : State) :
    Except EdaError (Option (Entry × Bool) × State) := do
  match ← rendered (render name) with
  | none => .ok (none, s)
  | some data =>
    match insert name data s, later with
    | .ok (stored, s), _ => .ok (some stored, s)
    | .error e, next :: later =>
      if isNameConflict e then storeCandidates render insert next later s else .error e
    | .error e, [] => .error e
termination_by later.length

def storeEntry (env : Env) (ctx : Ctx) (model : Model) (storageKind : StorageKind)
    (kind : Option DatafileKind) (categoryId : Option Uuid) (name : Text)
    (render : Text → Except EdaError ByteArray) (s : State) :
    Except EdaError (Option (Entry × Bool) × State) :=
  storeCandidates render (insertEntry env ctx model storageKind kind categoryId)
    (name.take nameMax) (suffixedNames name (model = .datafile)) s

/-! ### Entries -/

/-- `_import_entry`; the entry is renamed in the file, not only in the row. -/
def importEntry (env : Env) (ctx : Ctx) (model : Model) (categoryId : Option Uuid) (name : Text)
    (node : Node) (s : State) : Except EdaError (Option (Entry × Bool) × State) :=
  storeEntry env ctx model model.entryKind none categoryId name (fun candidate => do
    let renamed ← if candidate = name then .ok node
      else (Sexpr.rename node candidate).mapError .sexpr
    canonicalEntryBytes env renamed model.entryKind candidate) s

def importDatafile (env : Env) (ctx : Ctx) (pending : PendingDatafile) (s : State) :
    Except EdaError (Option (Entry × Bool) × State) :=
  storeEntry env ctx .datafile (.data pending.kind) (some pending.kind) none pending.name
    (fun _ => validatedDatafile pending.kind pending.data) s

/-! ### Model paths -/

/-- The name without its extension. -/
def stemOf (name : Text) : Text := if '.' ∈ name then (splitExtension name).1 else name

def pathStem (path : Text) : Text :=
  stemOf (afterLast '/' (path.map fun c => if c = '\\' then '/' else c))

/-- The imported 3D files with their folded stems, in order: `models_by_stem`. -/
abbrev ModelsByStem : Type := List (Text × CreatedRow)

def ModelsByStem.group (env : Env) (models : ModelsByStem) (path : Text) : List CreatedRow :=
  (models.filter fun m => m.1 = env.fold (pathStem path)).map (·.2)

/-- A STEP file ranks before a WRL file. -/
def CreatedRow.rank (row : CreatedRow) : ℕ := if row.kind = some .step then 0 else 1

/-- `resolve` of `_rewrite_models`: the first STEP file, else the first file. -/
def resolveModel (group : List CreatedRow) : Option Text :=
  ((group.find? fun row => row.rank = 0).or group.head?).map fun best =>
    modelPathVar ++ '/' :: best.name

structure RewrittenModels where
  node : Node
  linked : List CreatedRow
  unmatchedOnly : Bool
  dropped : List Text

def rewriteModels (env : Env) (node : Node) (models : ModelsByStem) : RewrittenModels :=
  let referenced := Sexpr.modelPaths node
  let linked := (referenced.flatMap (models.group env)).foldl
    (fun linked row => if row ∈ linked then linked else linked ++ [row]) []
  if linked = [] then ⟨node, [], referenced ≠ [], []⟩
  else ⟨Sexpr.rewriteModelPaths node fun path => resolveModel (models.group env path), linked,
    false, referenced.filter fun path => models.group env path = []⟩

/-- `_link_models`: STEP files first. -/
def linkModels (ctx : Ctx) (footprintId : Uuid) (models : List CreatedRow) (s : State) :
    Except EdaError State :=
  let ordered := models.filter (·.rank = 0) ++ models.filter (·.rank ≠ 0)
  ordered.zipIdx.foldlM (fun s (row, position) => do
    let (_, s) ← linkFootprintModel ctx footprintId row.id position s
    return s) s

/-! ### Importing a plan -/

def importDatafiles (env : Env) (ctx : Ctx) : List PendingDatafile → ImportResult →
    ModelsByStem → State → Except EdaError (ImportResult × ModelsByStem × State)
  | [], result, models, s => .ok (result, models, s)
  | pending :: rest, result, models, s => do
    let (stored, s) ← importDatafile env (ctx.child 0) pending s
    match stored with
    | none =>
      importDatafiles env (ctx.child 1) rest
        { result with skipped := result.skipped ++ [skip pending.name skipInvalidEntry] } models s
    | some stored =>
      let row := createdRow stored
      let models := if pending.kind = .spice then models
        else models ++ [(env.fold (stemOf pending.name), row)]
      importDatafiles env (ctx.child 1) rest
        { result with datafiles := result.datafiles ++ [row] } models s

def importFootprint (env : Env) (ctx : Ctx) (categoryId : Option Uuid) (models : ModelsByStem)
    (pending : PendingFootprint) (result : ImportResult) (s : State) :
    Except EdaError (ImportResult × State) := do
  let filename := pending.val.filename
  let rewritten := rewriteModels env pending.val.node models
  let (stored, s) ← importEntry env ctx .footprint categoryId pending.val.name rewritten.node s
  match stored with
  | none => return ({ result with skipped := result.skipped ++ [skip filename skipInvalidEntry] }, s)
  | some stored => do
    let row := createdRow stored
    let unmatched := if rewritten.unmatchedOnly then [skip filename skipModelsUnmatched] else []
    let dropped := rewritten.dropped.map fun path => skip path skipModelDropped
    let s ← linkModels (ctx.child 1) row.id rewritten.linked s
    return ({ result with footprints := result.footprints ++ [row],
                          skipped := result.skipped ++ unmatched ++ dropped }, s)

def importFootprints (env : Env) (ctx : Ctx) (categoryId : Option Uuid) (models : ModelsByStem) :
    List PendingFootprint → ImportResult → State → Except EdaError (ImportResult × State)
  | [], result, s => .ok (result, s)
  | pending :: rest, result, s => do
    let (result, s) ← importFootprint env (ctx.child 0) categoryId models pending result s
    importFootprints env (ctx.child 1) categoryId models rest result s

def importSymbols (env : Env) (ctx : Ctx) (categoryId : Option Uuid) :
    List PendingSymbol → ImportResult → State → Except EdaError (ImportResult × State)
  | [], result, s => .ok (result, s)
  | pending :: rest, result, s => do
    let (stored, s) ← importEntry env (ctx.child 0) .symbol categoryId pending.val.name
      pending.val.node s
    let result := match stored with
      | none => { result with skipped := result.skipped ++
          [skip pending.val.filename skipInvalidEntry] }
      | some stored => { result with symbols := result.symbols ++ [createdRow stored] }
    importSymbols env (ctx.child 1) categoryId rest result s

def importPlan (env : Env) (ctx : Ctx) (plan : ImportPlan) (categoryId : Option Uuid)
    (s : State) : Except EdaError (ImportResult × State) := do
  assertCategory ctx s categoryId true
  let (result, models, s) ← importDatafiles env (ctx.child 0) plan.datafiles
    ⟨[], [], [], plan.skipped⟩ [] s
  let (result, s) ← importFootprints env (ctx.child 1) categoryId models plan.footprints result s
  importSymbols env (ctx.child 2) categoryId plan.symbols result s

/-! ### Requests -/

inductive Request
  | uploadSymbol (contents : ByteArray) (name : Option FormName) (categoryId : Option Uuid)
  | uploadFootprint (contents : ByteArray) (name : Option FormName) (categoryId : Option Uuid)
  | uploadDatafile (filename : Option Text) (contents : ByteArray) (name : Option FormName)
  | importPlan (plan : ImportPlan) (categoryId : Option Uuid)
  | patch (model : Model) (entryId : Uuid) (payload : EntryPatch)
  | archive (model : Model) (entryId : Uuid)
  | restore (model : Model) (entryId : Uuid)
  | link (footprintId datafileId : Uuid) (position : ℕ)
  | unlink (footprintId datafileId : Uuid)
  /-- What an import that was refused later had already written to the store. -/
  | orphan (kind : StorageKind) (data : ByteArray)

/-- The state a request commits. -/
def exec (env : Env) (call : Ctx × Request) (s : State) : Except EdaError State :=
  let (ctx, request) := call
  match request with
  | .uploadSymbol contents name categoryId =>
    (uploadSymbol env ctx contents name categoryId s).map (·.2)
  | .uploadFootprint contents name categoryId =>
    (uploadFootprint env ctx contents name categoryId s).map (·.2)
  | .uploadDatafile filename contents name =>
    (uploadDatafile env ctx filename contents name s).map (·.2)
  | .importPlan plan categoryId => (importPlan env ctx plan categoryId s).map (·.2)
  | .patch model entryId payload => (updateEntry env ctx model entryId payload s).map (·.2)
  | .archive model entryId => (archiveEntry ctx model entryId s).map (·.2)
  | .restore model entryId => (restoreEntry ctx model entryId s).map (·.2)
  | .link footprintId datafileId position =>
    (linkFootprintModel ctx footprintId datafileId position s).map (·.2)
  | .unlink footprintId datafileId => (unlinkFootprintModel ctx footprintId datafileId s).map (·.2)
  | .orphan kind data => .ok (s.store env ctx.workspaceId kind data)

end StockManager.Eda

/-! ## Narrowing an import to one part (domain/eda/vendor_zip.py)

`_normalise` is the importer's fold. An entry's place in the plan stands for the object `is`
compares; the vendor of a plan is left out. -/

namespace StockManager.Eda

open Sexpr (Text)
open Singling (sole)

/-- The 422 answers, with the texts and fields of their bodies. -/
inductive Ambiguity
  | multipleSymbols (count : ℕ) (names : List Text)
  | multipleFootprints (count : ℕ) (names : List Text)
  deriving DecidableEq

def Ambiguity.code : Ambiguity → String
  | multipleSymbols .. => "eda.multiple_symbols"
  | multipleFootprints .. => "eda.multiple_footprints"

def Ambiguity.message : Ambiguity → String
  | multipleSymbols count _ => s!"archive holds {count} symbols and none of them " ++
      "clearly belongs to this part — import it as a library instead, " ++
      "then pick the symbol on this tab"
  | multipleFootprints count _ => s!"archive holds {count} footprints and the symbol " ++
      "doesn't name one of them — import it as a library instead, then " ++
      "pick the footprint on this tab"

def skipNotThisPart : String :=
  "library entry not wired to this part — import as a library to keep it"

section Picks

variable (env : Env)

/-- `{_normalise(h) for h in hints if h}` -/
def foldedHints (hints : List Text) : List Text := (hints.filter (· ≠ [])).map env.fold

/-- The names of the footprints, folded. -/
def foldedNames (plan : ImportPlan) : List Text :=
  plan.footprints.map fun fp => env.fold fp.val.name

def fileStems (plan : ImportPlan) : List Text :=
  plan.footprints.map fun fp => env.fold (pathStem fp.val.filename)

/-- The entry half of `LibNick:Entry`, folded. -/
def foldedReference (reference : Text) : Text := env.fold (afterLast ':' reference)

def footprintReference (symbol : PendingSymbol) : Text :=
  (Sexpr.getProperty symbol.val.node "Footprint".toList).getD []

def isWanted (wanted : List Text) (entry : PendingEntry) : Bool :=
  env.fold entry.name ≠ [] ∧ env.fold entry.name ∈ wanted

def uniqueMatch {α : Type} (entry : α → PendingEntry) (entries : List (α × ℕ))
    (wanted : List Text) : Option (α × ℕ) :=
  sole (entries.filter fun placed => isWanted env wanted (entry placed.1))

def isLinked (plan : ImportPlan) (symbol : PendingSymbol) : Bool :=
  foldedReference env (footprintReference symbol) ≠ [] ∧
    foldedReference env (footprintReference symbol) ∈ foldedNames env plan

def pickSymbol (plan : ImportPlan) (hints : List Text) :
    Except Ambiguity (Option (PendingSymbol × ℕ)) :=
  let symbols := plan.symbols.zipIdx
  if symbols.length ≤ 1 then .ok symbols.head?
  else
    let linked := symbols.filter fun placed => isLinked env plan placed.1
    match ((sole linked).or (uniqueMatch env Subtype.val symbols (foldedHints env hints))).or
        (uniqueMatch env Subtype.val symbols (foldedNames env plan ++ fileStems env plan)) with
    | some symbol => .ok (some symbol)
    | none =>
      let names := plan.symbols.map fun entry => entry.val.name.take 80
      .error (.multipleSymbols plan.symbols.length (names.take 20))

/-- The footprint the symbol explicitly references. -/
def referencedFootprint (plan : ImportPlan) (symbol : Option PendingSymbol) :
    Option (PendingFootprint × ℕ) :=
  match symbol with
  | none => none
  | some symbol =>
    if footprintReference symbol = [] then none
    else uniqueMatch env Subtype.val plan.footprints.zipIdx
      [foldedReference env (footprintReference symbol)]

def pickFootprint (plan : ImportPlan) (symbol : Option PendingSymbol) (hints : List Text) :
    Except Ambiguity (Option (PendingFootprint × ℕ)) :=
  let footprints := plan.footprints.zipIdx
  if footprints.length ≤ 1 then .ok footprints.head?
  else
    match (referencedFootprint env plan symbol).or
        (uniqueMatch env Subtype.val footprints (foldedHints env hints)) with
    | some footprint => .ok (some footprint)
    | none =>
      let names := plan.footprints.map fun entry => entry.val.name.take 80
      .error (.multipleFootprints plan.footprints.length (names.take 20))

end Picks

/-- The note of an entry that is not kept. -/
def notThisPart (entry : PendingEntry) : Skipped :=
  skip (if entry.filename = [] then entry.name else entry.filename) skipNotThisPart

def droppedNotes {α : Type} (entry : α → PendingEntry) (group : List α) (kept : Option (α × ℕ)) :
    List Skipped :=
  (group.zipIdx.filter fun placed => kept.map (·.2) ≠ some placed.2).map
    fun placed => notThisPart (entry placed.1)

def narrowToPart (env : Env) (plan : ImportPlan) (hints : List Text) :
    Except Ambiguity ImportPlan := do
  let symbol ← pickSymbol env plan hints
  let footprint ← pickFootprint env plan (symbol.map (·.1)) hints
  return { plan with
    symbols := (symbol.map (·.1)).toList
    footprints := (footprint.map (·.1)).toList
    skipped := plan.skipped ++ (droppedNotes Subtype.val plan.symbols symbol ++
      droppedNotes Subtype.val plan.footprints footprint) }

end StockManager.Eda
