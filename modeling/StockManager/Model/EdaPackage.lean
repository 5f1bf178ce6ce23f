import StockManager.Library.GroupRuns
import StockManager.Library.Lines
import StockManager.Model.EdaLibrary

/-! # The KiCad package of a workspace (domain/eda/{kicad_refs,pcm}.py)

The text of `metadata.json` is a parameter; it and the version, the fingerprint and the cache
are in the module on the cache. -/

namespace StockManager.Eda

open Sexpr (Text Node)

/-! ### Names shared with KiCad (domain/eda/kicad_refs.py) -/

def libraryPrefix : Text := "SM_".toList

def pcmNicknamePrefix : Text := "PCM_".toList

/-- `MODEL_PATH_VAR` with its separator: `_STORED_MODEL_PREFIX` -/
def storedModelPrefix : Text := "${STOCKMGR_3D}/".toList

def packageStem (categorySlug : Option Text) : Text :=
  libraryPrefix ++ (categorySlug.filter (· ≠ [])).getD "uncategorized".toList

def stemNickname (stem : Text) : Text := pcmNicknamePrefix ++ stem

def libraryNickname (categorySlug : Option Text) : Text := stemNickname (packageStem categorySlug)

def entryRef (name : Text) (categorySlug : Option Text) : Text :=
  libraryNickname categorySlug ++ ':' :: name

/-- `workspace_id.hex` -/
def uuidHex (u : Uuid) : Text :=
  let digits := Nat.toDigits 16 u
  List.replicate (32 - digits.length) '0' ++ digits

def packageIdentifier (workspaceId : Uuid) : Text := "com.stockmanager.".toList ++ uuidHex workspaceId

def installDirName (identifier : Text) : Text := identifier.map fun c => if c = '.' then '_' else c

/-- The directory the package's 3D models are installed in, with its separator. -/
def pcmModelDir (identifier : Text) : Text :=
  "${KICAD8_3RD_PARTY}/3dmodels/".toList ++ (installDirName identifier ++ ['/'])

def pcmModelPath (identifier name : Text) : Text := pcmModelDir identifier ++ name

/-! ### The plan (domain/eda/pcm.py) -/

def unavailable (message : String) : EdaError :=
  .http 503 "kicad.package_unavailable" message.toList .nothing

def unsafeNameChars : List Char := ['/', '\\', ':', '*', '?', '"', '<', '>', '|']

def isSafeMemberName (name : Text) : Bool :=
  name ≠ [] ∧ name ≠ ['.'] ∧ name ≠ ['.', '.'] ∧
    name.getLast?.all (fun c => c ≠ ' ' ∧ c ≠ '.') ∧
    name.all fun c => c ∉ unsafeNameChars ∧ ¬ c.toNat < 32

/-- `_StoredEntry`; the storage kind stands for the extension. -/
structure StoredEntry where
  name : Text
  sha256 : Text
  sizeBytes : ℕ
  kind : StorageKind
  stem : Text
  member : Text
  models : List Text

structure Plan where
  workspaceId : Uuid
  identifier : Text
  symbols : List StoredEntry
  footprints : List StoredEntry
  blobs : List StoredEntry

/-- The slug of the row's category, where the category is active. -/
def categorySlug (s : State) (row : Entry) : Option Text :=
  (s.categories.find? fun c => some c.id = row.categoryId ∧ c.workspaceId = row.workspaceId ∧
    c.archivedAt = none).map (·.librarySlug)

def activeRows (s : State) (workspaceId : Uuid) (model : Model) : List Entry :=
  (s.rows model).filter fun r => r.workspaceId = workspaceId ∧ r.archivedAt = none

/-- `_library_entries`: the active rows, each with its file stem. -/
def libraryEntries (s : State) (workspaceId : Uuid) (model : Model) : List (Entry × Text) :=
  (activeRows s workspaceId model).map fun row => (row, packageStem (categorySlug s row))

/-- `_linked_models`; names are put in order by the database's collation. -/
def linkedModels (collate : Text → Text → Bool) (s : State) (workspaceId footprintId : Uuid) :
    List Text :=
  let rows := s.links.filterMap fun l =>
    if l.workspaceId = workspaceId ∧ l.footprintId = footprintId ∧
        s.footprints.any (fun f => f.id = footprintId ∧ f.workspaceId = workspaceId) then
      (s.datafiles.find? fun d => d.id = l.datafileId ∧ d.workspaceId = workspaceId ∧
        d.archivedAt = none ∧ (d.kind = some .step ∨ d.kind = some .wrl)).map
          fun d => (l.position, d.name)
    else none
  (rows.mergeSort fun a b => a.1 < b.1 ∨ (a.1 = b.1 ∧ collate a.2 b.2)).map (·.2)

def symbolsDir : Text := "symbols/".toList
def footprintsDir : Text := "footprints/".toList
def modelsDir : Text := "3dmodels/".toList
def spiceDir : Text := "resources/spice/".toList

def symbolMember (stem : Text) : Text := symbolsDir ++ (stem ++ ".kicad_sym".toList)

def footprintMember (stem name : Text) : Text :=
  footprintsDir ++ (stem ++ (".pretty/".toList ++ (name ++ ".kicad_mod".toList)))

def isModelKind (kind : StorageKind) : Bool := kind = .data .step ∨ kind = .data .wrl

def blobMember (kind : StorageKind) (name : Text) : Text :=
  (if kind = .data .spice then spiceDir else modelsDir) ++ name

/-- `_MODEL_KIND_RANK.get(kind, 9)` -/
def modelKindRank : StorageKind → ℕ
  | .data .step => 0
  | .data .wrl => 1
  | _ => 9

def isPackaged (row : Entry × Text) : Bool := isSafeMemberName row.1.name ∧ isSafeMemberName row.2

def symbolEntry (row : Entry × Text) : StoredEntry :=
  ⟨row.1.name, row.1.sha256, row.1.sizeBytes, .symbol, row.2, [], []⟩

def footprintEntry (models : List Text) (row : Entry × Text) : StoredEntry :=
  ⟨row.1.name, row.1.sha256, row.1.sizeBytes, .footprint, row.2,
    footprintMember row.2 row.1.name, models⟩

def blobEntry (row : Entry) : Option StoredEntry :=
  row.kind.map fun kind => ⟨row.name, row.sha256, row.sizeBytes, .data kind, [],
    blobMember (.data kind) row.name, []⟩

/-- Strings compare by code point. -/
def textLe : Text → Text → Bool
  | [], _ => true
  | _ :: _, [] => false
  | a :: as, b :: bs => if a = b then textLe as bs else a.toNat < b.toNat

/-- `sort(key=lambda entry: (entry.stem, entry.name))` -/
def byStemAndName (a b : StoredEntry) : Bool :=
  textLe a.stem b.stem ∧ (a.stem = b.stem → textLe a.name b.name)

/-- `sort(key=lambda entry: (entry.member, rank, entry.name))` -/
def byMember (a b : StoredEntry) : Bool :=
  textLe a.member b.member ∧ (a.member = b.member → modelKindRank a.kind ≤ modelKindRank b.kind ∧
    (modelKindRank a.kind = modelKindRank b.kind → textLe a.name b.name))

/-- `_dedupe_members`: one entry for each member, the first. -/
def dedupeMembers (entries : List StoredEntry) : List StoredEntry :=
  entries.foldl (fun kept entry =>
    if kept.any fun winner => winner.member = entry.member then kept else kept ++ [entry]) []

def maxContentBytes : ℕ := 200 * 1024 * 1024

def totalBytes (entries : List StoredEntry) : ℕ := (entries.map (·.sizeBytes)).sum

/-- The 3D models and SPICE files that ship. -/
def planBlobs (s : State) (workspaceId : Uuid) : List StoredEntry :=
  dedupeMembers ((((activeRows s workspaceId .datafile).filter
    fun row => isSafeMemberName row.name).filterMap blobEntry).mergeSort byMember)

def planPackage (collate : Text → Text → Bool) (s : State) (workspaceId : Uuid) :
    Except EdaError Plan := do
  let symbols := ((libraryEntries s workspaceId .symbol).filter isPackaged).map symbolEntry
  let blobs := planBlobs s workspaceId
  let shippedModels := (blobs.filter fun entry => isModelKind entry.kind).map (·.name)
  let footprints := ((libraryEntries s workspaceId .footprint).filter isPackaged).map fun row =>
    footprintEntry ((linkedModels collate s workspaceId row.1.id).filter (· ∈ shippedModels)) row
  let total := totalBytes symbols + totalBytes footprints + totalBytes blobs
  Outcome.check (total ≤ maxContentBytes)
    (unavailable s!"library content is {total} bytes, over the {maxContentBytes}-byte packaging limit")
  return ⟨workspaceId, packageIdentifier workspaceId, symbols.mergeSort byStemAndName,
    footprints.mergeSort byStemAndName, blobs⟩

/-! ### Rendering -/

/-- A file of the store, as the package reads it. -/
abbrev ReadFile : Type := StorageKind → Text → Option ByteArray

def readStored (read : ReadFile) (entry : StoredEntry) : Except EdaError ByteArray :=
  Outcome.orRaise (read entry.kind entry.sha256)
    (unavailable "a library file is missing from storage")

/-- `_footprint_libraries`: a later footprint of one name would win. -/
def footprintLibrary (footprints : List StoredEntry) (name : Text) : Option Text :=
  (footprints.reverse.find? fun f => f.name = name).map fun f => stemNickname f.stem

def parseStored (raw : ByteArray) (what : String) : Except EdaError Node :=
  Outcome.orRaise ((decode raw).bind fun text => (Sexpr.parse text).toOption)
    (unavailable s!"a stored {what} could not be read")

def footprintProperty : Text := "Footprint".toList

/-- The value `_symbol_for_package` gives the `Footprint` field, where it changes it. -/
def repointed (footprints : List StoredEntry) (node : Node) : Option Text := do
  let current ← (Sexpr.getProperty node footprintProperty).filter (· ≠ [])
  let entry := afterLast ':' current
  let nickname ← footprintLibrary footprints entry
  let target := nickname ++ ':' :: entry
  if target = current then none else some target

def symbolForPackage (footprints : List StoredEntry) (raw : ByteArray) :
    Except EdaError ByteArray := do
  let node ← parseStored raw "symbol"
  match repointed footprints node with
  | none => return raw
  | some target => return encode (Sexpr.emit (Sexpr.setProperty node footprintProperty target))

/-- `rewrite` of `_footprint_for_package` -/
def installedPath (identifier path : Text) : Option Text :=
  match Sexpr.afterPrefix storedModelPrefix path with
  | none => some path
  | some name => if isSafeMemberName name then some (pcmModelPath identifier name) else none

/-- The linked models whose path the footprint does not name yet. -/
def appendModels (identifier : Text) (models : List Text) (node : Node) : Node :=
  models.foldl (fun node name =>
    if pcmModelPath identifier name ∈ Sexpr.modelPaths node then node
    else Sexpr.appendModel node (pcmModelPath identifier name)) node

def footprintForPackage (identifier : Text) (models : List Text) (raw : ByteArray) :
    Except EdaError ByteArray := do
  let node ← parseStored raw "footprint"
  return encode (Sexpr.emit (appendModels identifier models
    (Sexpr.rewriteModelPaths node (installedPath identifier))))

def libraryHeader : Text :=
  "(kicad_symbol_lib (version 20211014) (generator stockmanager)\n".toList

/-- The header, the entries a line apart, and the end. -/
def symbolLibrary (entries : List ByteArray) : ByteArray :=
  encode libraryHeader ++ ((entries.intersperse (encode ['\n'])).foldl (· ++ ·) ByteArray.empty ++
    encode "\n)\n".toList)

def writeSymbolLibrary (read : ReadFile) (footprints : List StoredEntry)
    (library : Text × List StoredEntry) : Except EdaError (Text × ByteArray) := do
  let entries ← library.2.mapM fun entry => do
    let raw ← readStored read entry
    symbolForPackage footprints raw
  return (symbolMember library.1, symbolLibrary entries)

def writeFootprint (read : ReadFile) (identifier : Text) (entry : StoredEntry) :
    Except EdaError (Text × ByteArray) := do
  let raw ← readStored read entry
  let data ← footprintForPackage identifier entry.models raw
  return (entry.member, data)

def copyStored (read : ReadFile) (entry : StoredEntry) : Except EdaError (Text × ByteArray) := do
  let raw ← readStored read entry
  return (entry.member, raw)

def metadataMember : Text := "metadata.json".toList

/-- The members of the archive, in order. -/
def writeArchive (metadata : ByteArray) (read : ReadFile) (plan : Plan) :
    Except EdaError (List (Text × ByteArray)) := do
  let libraries ← (GroupRuns.groupBy (·.stem) plan.symbols).mapM
    (writeSymbolLibrary read plan.footprints)
  let footprints ← plan.footprints.mapM (writeFootprint read plan.identifier)
  let blobs ← plan.blobs.mapM (copyStored read)
  return (metadataMember, metadata) :: (libraries ++ footprints ++ blobs)

/-- The package of a workspace: its plan and its archive. -/
def buildArchive (collate : Text → Text → Bool) (metadata : Plan → ByteArray) (s : State)
    (workspaceId : Uuid) : Except EdaError (Plan × List (Text × ByteArray)) := do
  let plan ← planPackage collate s workspaceId
  let members ← writeArchive (metadata plan)
    (fun kind sha256 => s.files.read (workspaceId, kind) sha256) plan
  return (plan, members)

end StockManager.Eda

/-! ## Versions, fingerprints and the cache of packages (domain/eda/pcm.py) -/

namespace StockManager.Eda

open Sexpr (Text)

/-! ### The version -/

def packageFormat : ℕ := 3

def minorRollover : ℕ := 10000

def versionTickSeconds : ℕ := 2

def microsPerSecond : ℕ := 1000000

def microsPerDay : ℕ := 86400 * microsPerSecond

/-- `VERSION_EPOCH`: 2026-01-01, the day 739617 -/
def versionEpoch : Timestamp := 739616 * microsPerDay

/-- 1970-01-01, from which `timestamp()` counts -/
def unixEpoch : Timestamp := 719162 * microsPerDay

structure Version where
  major : ℕ
  minor : ℕ
  patch : ℕ
  deriving DecidableEq

def decimal (n : ℕ) : Text := Nat.toDigits 10 n

def Version.text (v : Version) : Text :=
  decimal v.major ++ '.' :: (decimal v.minor ++ '.' :: decimal v.patch)

/-- `_derive_version`: the version and `update_timestamp` -/
def deriveVersion (latest : Option Timestamp) : Version × ℕ :=
  let moment := max (latest.getD versionEpoch) versionEpoch
  let days := (moment - versionEpoch) / microsPerDay
  let seconds := (moment - versionEpoch) % microsPerDay / microsPerSecond
  (⟨packageFormat + days / minorRollover, days % minorRollover, seconds / versionTickSeconds⟩,
    (moment - unixEpoch) / microsPerSecond)

/-! ### The plan and its fingerprint -/

/-- `Plan`, with what the listing of its contents leaves out -/
structure PackagePlan where
  contents : Plan
  workspaceName : Text
  version : Version
  updateTimestamp : ℕ

/-- What `plan_package` reads: the tables, the workspace's name and `_latest_change`. -/
structure Snapshot where
  state : State
  workspaceId : Uuid
  name : Text
  latest : Option Timestamp

def Snapshot.plan (collate : Text → Text → Bool) (shot : Snapshot) : Except EdaError PackagePlan :=
  (planPackage collate shot.state shot.workspaceId).map fun contents =>
    ⟨contents, shot.name, (deriveVersion shot.latest).1, (deriveVersion shot.latest).2⟩

def Snapshot.read (shot : Snapshot) : ReadFile :=
  fun kind sha256 => shot.state.files.read (shot.workspaceId, kind) sha256

/-- The lines of an entry: what it is, and its links. -/
def entryLines (label : Text) (entry : StoredEntry) : List Text :=
  (label ++ '\t' :: (entry.stem ++ '\t' :: (entry.name ++ '\t' :: entry.sha256))) ::
    entry.models.map fun model => "\tmodel\t".toList ++ model

def symbolLabel : Text := "sym".toList
def footprintLabel : Text := "fp".toList
def blobLabel : Text := "blob".toList

def planLines (plan : Plan) : List Text :=
  plan.symbols.flatMap (entryLines symbolLabel) ++
    plan.footprints.flatMap (entryLines footprintLabel) ++ plan.blobs.flatMap (entryLines blobLabel)

/-- What `_fingerprint` hashes -/
def fingerprintText (p : PackagePlan) : Text :=
  "format ".toList ++ (decimal packageFormat ++ '\n' :: (p.contents.identifier ++ '\n' ::
    (p.version.text ++ '\n' :: (p.workspaceName ++ '\n' :: Lines.join '\n' (planLines p.contents)))))

def fingerprint (sha256 : ByteArray → Text) (p : PackagePlan) : Text :=
  sha256 (encode (fingerprintText p))

/-! ### `metadata.json` -/

def hexDigits (n : ℕ) : Text :=
  let digits := Nat.toDigits 16 n
  List.replicate (4 - digits.length) '0' ++ digits

/-- How `json.dumps` writes a character when it keeps non-ASCII ones. -/
def jsonChar (c : Char) : Text :=
  if c = '"' then ['\\', '"']
  else if c = '\\' then ['\\', '\\']
  else if c = '\n' then ['\\', 'n']
  else if c = '\r' then ['\\', 'r']
  else if c = '\t' then ['\\', 't']
  else if c.toNat = 8 then ['\\', 'b']
  else if c.toNat = 12 then ['\\', 'f']
  else if c.toNat < 32 then '\\' :: 'u' :: hexDigits c.toNat
  else [c]

def jsonString (text : Text) : Text := '"' :: (text.flatMap jsonChar ++ ['"'])

def packageName (workspaceName : Text) : Text :=
  (workspaceName ++ " (stockManager)".toList).take 200

def description (workspaceName : Text) : Text :=
  ("KiCad symbols, footprints and 3D models hosted by the ".toList ++
    (workspaceName ++ " stockManager workspace.".toList)).take 500

def pcmSpiceDir (identifier : Text) : Text :=
  "${KICAD8_3RD_PARTY}/resources/".toList ++ (installDirName identifier ++ "/spice".toList)

def descriptionFull (identifier workspaceName : Text) : Text :=
  ("Generated from the ".toList ++ (workspaceName ++ (" workspace in stockManager. ".toList ++
    ("Each part category becomes one symbol library and one footprint ".toList ++
    ("library, registered by the Plugin and Content Manager as ".toList ++
    (pcmNicknamePrefix ++ (libraryPrefix ++ ("<category>; entries with no category land in ".toList ++
    (libraryNickname none ++ (". 3D models resolve on their own. ".toList ++
    ("To use the SPICE models, add a path variable named STOCKMGR_SPICE pointing at ".toList ++
    (pcmSpiceDir identifier ++ (" in Preferences > Configure Paths. Reinstall or update the ".toList ++
    "package to pick up library changes made in stockManager.".toList))))))))))))).take 5000

/-- `json_bytes(metadata_document(plan))` -/
def metadataText (p : PackagePlan) : Text :=
  "\x7b\"name\":".toList ++ (jsonString (packageName p.workspaceName) ++
    (",\"description\":".toList ++ (jsonString (description p.workspaceName) ++
    (",\"description_full\":".toList ++
    (jsonString (descriptionFull p.contents.identifier p.workspaceName) ++
    (",\"identifier\":".toList ++ (jsonString p.contents.identifier ++
    (",\"type\":\"library\",\"author\":\x7b\"name\":\"stockManager\",\"contact\":\x7b\x7d\x7d,".toList ++
    ("\"license\":\"unrestricted\",\"resources\":\x7b\x7d,\"versions\":[\x7b\"version\":".toList ++
    (jsonString p.version.text ++
    ",\"status\":\"stable\",\"kicad_version\":\"8.0\"\x7d]\x7d".toList))))))))))

/-! ### The archive and the cache -/

abbrev Archive : Type := List (Text × ByteArray)

def writePackage (read : ReadFile) (p : PackagePlan) : Except EdaError Archive :=
  writeArchive (encode (metadataText p)) read p.contents

/-- The cached archives, under workspace and fingerprint. -/
structure Cache where
  files : List ((Uuid × Text) × Archive)

def Cache.find? (cache : Cache) (key : Uuid × Text) : Option Archive :=
  (cache.files.find? (·.1 = key)).map (·.2)

/-- `_prune` leaves the workspace no other archive. -/
def Cache.store (cache : Cache) (key : Uuid × Text) (archive : Archive) : Cache :=
  ⟨(key, archive) :: cache.files.filter fun file => file.1.1 ≠ key.1⟩

def Cache.drop (cache : Cache) (key : Uuid × Text) : Cache :=
  ⟨cache.files.filter fun file => file.1 ≠ key⟩

/-- How a build may go: no slot comes free in time, the cache directory takes the archive,
or it does not and the archive is built in memory. -/
inductive Building
  | busy | cached | inMemory
  deriving DecidableEq

section Cache

variable (sha256 : ByteArray → Text)

def cacheKey (p : PackagePlan) : Uuid × Text := (p.contents.workspaceId, fingerprint sha256 p)

/-- `materialise`: the archive it serves, and the cache it leaves. -/
def materialise (read : ReadFile) (p : PackagePlan) (building : Building) (cache : Cache) :
    Except EdaError (Archive × Cache) :=
  match cache.find? (cacheKey sha256 p) with
  | some archive => .ok (archive, cache)
  | none =>
    if building = .busy then
      .error (unavailable "the package builder is busy — try again shortly")
    else (writePackage read p).map fun archive =>
      (archive, if building = .cached then cache.store (cacheKey sha256 p) archive else cache)

/-- A package is asked for, or an unreadable file of the cache is thrown away. -/
inductive CacheEvent
  | request (shot : Snapshot) (building : Building)
  | lost (key : Uuid × Text)

/-- The cache after an event; a request that is refused leaves it alone. -/
def cacheStep (collate : Text → Text → Bool) (cache : Cache) : CacheEvent → Cache
  | .request shot building =>
    match shot.plan collate with
    | .error _ => cache
    | .ok p =>
      match materialise sha256 shot.read p building cache with
      | .error _ => cache
      | .ok (_, later) => later
  | .lost key => cache.drop key

end Cache

end StockManager.Eda
