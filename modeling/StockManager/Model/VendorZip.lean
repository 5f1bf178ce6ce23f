import StockManager.Library.Trim
import StockManager.Model.EdaImport

/-! # Reading a vendor archive (domain/eda/vendor_zip.py)

`zipfile` is a parameter: of a member it gives the declared size and the chunks that reading it
yields, up to its end or to an exception. An exception here carries the collector as it was when
it was raised, and `moments` are the totals each time one of them has grown. -/

namespace StockManager.Eda

open Sexpr (Text Node)

/-! ### Caps, notes and answers -/

def maxMembers : ℕ := 200

def maxUncompressedBytes : ℕ := 50 * mib

def maxParsedTextBytes : ℕ := 8 * mib

def chunkBytes : ℕ := 64 * 1024

def maxEntries : ℕ := 200

def sniffBytes : ℕ := 4096

def skipUnsupported : String := "unsupported file type"

def skipTooLarge : String := "file exceeds the size limit for its type"

def skipUnreadable : String := "file could not be read"

def skipAmbiguousLib : String := "'.lib' is neither a KiCad symbol library nor a SPICE model"

def skipLegacySymbols : String := "legacy KiCad 5 symbol library — convert it with kicad-cli"

def skipEntryCap : String := s!"archive holds more than {maxEntries} library entries"

def skipParseBudget : String := "archive holds more parseable text than one import may take"

/-- The 422 answers of `_reject`, with the fields of their bodies. -/
inductive Rejection
  | notAnArchive
  | tooManyMembers (count : ℕ)
  | declaredTooLarge (declared : ℕ)
  | understated
  | legacyFormat
  | noEntries (skipped : List Skipped)

def Rejection.code : Rejection → String
  | notAnArchive => "eda.invalid_archive"
  | tooManyMembers _ => "eda.archive_too_large"
  | declaredTooLarge _ => "eda.archive_too_large"
  | understated => "eda.archive_too_large"
  | legacyFormat => "eda.legacy_format"
  | noEntries _ => "eda.no_entries"

def Rejection.message : Rejection → String
  | notAnArchive => "not a readable zip archive"
  | tooManyMembers count => s!"archive holds {count} files — the limit is {maxMembers}"
  | declaredTooLarge declared =>
    s!"archive expands to {declared} bytes — the limit is {maxUncompressedBytes}"
  | understated => s!"archive expands past {maxUncompressedBytes} bytes — " ++
      "its central directory understated the real size"
  | legacyFormat => "this archive only carries a KiCad 5 (.lib) symbol library. " ++
      "Convert it locally first — `kicad-cli sym upgrade <file>.lib` " ++
      "— then import the resulting .kicad_sym."
  | noEntries _ => "nothing importable in this archive — expected a .kicad_sym " ++
      "symbol, a .kicad_mod footprint, a STEP/WRL model or a SPICE model"

/-- What `zipfile` raises when an archive is opened and while a member is opened and read. -/
inductive ReaderFault
  | badZipFile | osError
  /-- `NotImplementedError` among them: a zip version or a compression it does not know -/
  | runtimeError
  | eofError | zlibError
  /-- A name marked as UTF-8 that is not -/
  | unicodeDecodeError
  | other
  deriving DecidableEq

namespace ReaderFault

/-- `except (zipfile.BadZipFile, OSError)` of `_open_archive` -/
def caughtOpening : ReaderFault → Bool
  | badZipFile => true
  | osError => true
  | _ => false

/-- `except (RuntimeError, zipfile.BadZipFile, OSError)` of `_read_member` -/
def caught : ReaderFault → Bool
  | runtimeError => true
  | f => f.caughtOpening

end ReaderFault

/-- A rejection here, one of `decode_text`, or an exception that no one catches. -/
inductive Raised
  | rejected (r : Rejection)
  | text (e : EdaError)
  | fault (f : ReaderFault)

def Raised.is422 : Raised → Bool
  | rejected _ => true
  | text (.http 422 ..) => true
  | text _ => false
  | fault _ => false

/-! ### Members -/

structure Member where
  filename : Text
  fileSize : ℕ
  chunks : List ByteArray
  fault : Option ReaderFault
  chunk_size : ∀ chunk ∈ chunks, 0 < chunk.size ∧ chunk.size ≤ chunkBytes

/-- The tables `str.lower` needs. -/
structure ArchiveEnv extends Env where
  lower : Text → Text

def slashed (name : Text) : Text := name.map fun c => if c = '\\' then '/' else c

/-- `_basename` -/
def memberBasename (name : Text) : Text := afterLast '/' (slashed name)

/-- `_extension` -/
def memberExtension (env : ArchiveEnv) (name : Text) : Text :=
  let base := memberBasename name
  if '.' ∈ base then env.lower (afterLast '.' base) else []

def isNoise (member : Member) : Bool :=
  ['/'].isSuffixOf member.filename ∨ "__MACOSX/".toList.isPrefixOf member.filename ∨
    "._".toList.isPrefixOf (memberBasename member.filename) ∨ memberBasename member.filename = []

/-- The directories on the way to a member. -/
def directories (name : Text) : List Text := ((slashed name).splitOn '/').dropLast

def detectVendor (names : List Text) : String :=
  let parts := names.flatMap directories
  if "KiCad".toList ∈ parts then "samacsys"
  else if "KiCAD".toList ∈ parts then "ultralibrarian"
  else "snapeda"

def spiceMarkers : List Text :=
  [".subckt", ".model", ".include", ".param", ".ends", ".end", ".lib", ".temp",
    ".options"].map String.toList

/-- The characters `str.splitlines` splits at. -/
def isLineBreak (c : Char) : Bool :=
  c.toNat ∈ [10, 11, 12, 13, 28, 29, 30, 133, 8232, 8233]

/-- `_looks_like_spice`; the empty line within a `\r\n` begins with no marker. -/
def looksLikeSpice (env : ArchiveEnv) (sniffed : Text) : Bool :=
  (sniffed.splitOnP isLineBreak).any fun line =>
    spiceMarkers.any fun marker => marker.isPrefixOf (env.lower (Trim.trim isSpace line))

def looksLikeLegacySymbols (sniffed : Text) : Bool :=
  "EESchema-LIBRARY".toList.isPrefixOf (sniffed.dropWhile isSpace)

/-! ### The collector -/

/-- A parsed symbol or footprint. -/
structure ReadEntry where
  name : Text
  node : Node
  filename : Text

structure Totals where
  inflated : ℕ
  parsed : ℕ
  held : ℕ

/-- `_Collector` with its `_Budget`. -/
structure Collector where
  inflated : ℕ
  parsed : ℕ
  symbols : List ReadEntry
  footprints : List ReadEntry
  datafiles : List PendingDatafile
  skipped : List Skipped
  sawLegacySymbols : Bool
  droppedMembers : ℕ
  moments : List Totals

def Collector.empty : Collector := ⟨0, 0, [], [], [], [], false, 0, []⟩

namespace Collector

def held (col : Collector) : ℕ :=
  col.symbols.length + col.footprints.length + col.datafiles.length

def room (col : Collector) : ℕ := maxEntries - col.held

def record (col : Collector) : Collector :=
  { col with moments := col.moments ++ [⟨col.inflated, col.parsed, col.held⟩] }

def skip (col : Collector) (name : Text) (reason : String) : Collector :=
  { col with skipped := col.skipped ++ [Eda.skip name reason] }

def inflate (col : Collector) (count : ℕ) : Collector :=
  { col with inflated := col.inflated + count }.record

/-- `take_parse`: `none` when the budget is exhausted. -/
def takeParse (col : Collector) (count : ℕ) : Option Collector :=
  if maxParsedTextBytes < col.parsed + count then none
  else some { col with parsed := col.parsed + count }.record

def addSymbol (col : Collector) (entry : ReadEntry) : Collector :=
  { col with symbols := col.symbols ++ [entry] }.record

def addFootprint (col : Collector) (entry : ReadEntry) : Collector :=
  { col with footprints := col.footprints ++ [entry] }.record

def addDatafile (col : Collector) (entry : PendingDatafile) : Collector :=
  { col with datafiles := col.datafiles ++ [entry] }.record

end Collector

/-! ### Reading members -/

/-- The loop of `_read_member` over what is left of the member. -/
def readChunks (cap : ℕ) (fault : Option ReaderFault) (chunks : List ByteArray) (out : ByteArray)
    (col : Collector) : Except (Raised × Collector) (Option ByteArray × Collector) :=
  match chunks with
  | [] =>
    match fault with
    | none => .ok (some out, col)
    | some f => if f.caught then .ok (none, col) else .error (.fault f, col)
  | chunk :: rest =>
    let col := col.inflate chunk.size
    if maxUncompressedBytes < col.inflated then .error (.rejected .understated, col)
    else if cap < (out ++ chunk).size then .ok (none, col)
    else readChunks cap fault rest (out ++ chunk) col

def readMember (cap : ℕ) (member : Member) (col : Collector) :
    Except (Raised × Collector) (Option ByteArray × Collector) :=
  if cap < member.fileSize then .ok (none, col)
  else readChunks cap member.fault member.chunks ByteArray.empty col

/-- The first steps of `_collect_symbols` and `_collect_footprint`; `none` when the member is
skipped. -/
def readTextMember (env : ArchiveEnv) (kind : StorageKind) (member : Member) (col : Collector) :
    Except (Raised × Collector) (Option Text × Collector) := do
  let name := memberBasename member.filename
  let (raw, col) ← readMember (maxBytesFor env.toEnv kind) member col
  match raw with
  | none => .ok (none, col.skip name skipTooLarge)
  | some raw =>
    match col.takeParse raw.size with
    | none => .ok (none, col.skip name skipParseBudget)
    | some col =>
      match decodeText raw kind.str with
      | .error e => .error (.text e, col)
      | .ok text => .ok (some text, col)

/-! ### Per-kind collection -/

/-- The entries that have a name. -/
def addSymbols (name : Text) (found : List (Text × Node)) (col : Collector) : Collector :=
  found.foldl
    (fun col entry => if entry.1 = [] then col else col.addSymbol ⟨entry.1, entry.2, name⟩) col

def collectSymbols (env : ArchiveEnv) (member : Member) (col : Collector) :
    Except (Raised × Collector) Collector := do
  let name := memberBasename member.filename
  let (text, col) ← readTextMember env .symbol member col
  match text with
  | none => .ok col
  | some text =>
    match Sexpr.entries text with
    | .error _ => .ok (col.skip name skipUnreadable)
    | .ok found =>
      let room := col.room
      let col := addSymbols name (found.take room) col
      .ok (if room < found.length then col.skip name skipEntryCap else col)

/-- The parsed footprint with its name. -/
def readFootprint (text : Text) : Except Sexpr.SexprError (Text × Node) := do
  let node ← Sexpr.parse text
  Outcome.check (∃ root ∈ Sexpr.head node, root ∈ Sexpr.footprintRoots)
    ⟨"not a footprint document"⟩
  let name ← Sexpr.entryName node
  return (name, node)

def collectFootprint (env : ArchiveEnv) (member : Member) (col : Collector) :
    Except (Raised × Collector) Collector := do
  let name := memberBasename member.filename
  let (text, col) ← readTextMember env .footprint member col
  match text with
  | none => .ok col
  | some text =>
    match readFootprint text with
    | .error _ => .ok (col.skip name skipUnreadable)
    | .ok (entryName, node) =>
      .ok (if entryName = [] then col else col.addFootprint ⟨entryName, node, name⟩)

def datafileKind (env : ArchiveEnv) (member : Member) : DatafileKind :=
  if memberExtension env (memberBasename member.filename) ∈ ["step".toList, "stp".toList] then .step
  else .wrl

/-- What a data file has to start with. -/
def expectedStart (kind : DatafileKind) : String := if kind = .step then "ISO-10303-21" else "#VRML"

def collectDatafile (env : ArchiveEnv) (member : Member) (col : Collector) :
    Except (Raised × Collector) Collector := do
  let name := memberBasename member.filename
  let kind := datafileKind env member
  let (raw, col) ← readMember (maxBytesFor env.toEnv (.data kind)) member col
  match raw with
  | none => .ok (col.skip name skipTooLarge)
  | some raw =>
    .ok (if startsWith (expectedStart kind) raw then col.addDatafile ⟨kind, name, raw⟩
      else col.skip name skipUnreadable)

def collectMaybeSpice (env : ArchiveEnv) (member : Member) (col : Collector) :
    Except (Raised × Collector) Collector := do
  let name := memberBasename member.filename
  let (raw, col) ← readMember (maxBytesFor env.toEnv (.data .spice)) member col
  match raw with
  | none => .ok (col.skip name skipTooLarge)
  | some raw =>
    match decode (raw.extract 0 sniffBytes) with
    | none => .ok (col.skip name skipUnreadable)
    | some sniffed =>
      if looksLikeLegacySymbols sniffed then
        .ok { col.skip name skipLegacySymbols with sawLegacySymbols := true }
      else if memberExtension env name = "dcm".toList then .ok (col.skip name skipLegacySymbols)
      else if !looksLikeSpice env sniffed then .ok (col.skip name skipAmbiguousLib)
      else if 0 ∈ raw.data then .ok (col.skip name skipUnreadable)
      else .ok (col.addDatafile ⟨.spice, name, raw⟩)

/-! ### Walking the archive -/

/-- The four ways to take a member, by its extension. -/
inductive MemberClass
  | symbols | footprint | datafile | maybeSpice
  deriving DecidableEq

def memberClass (env : ArchiveEnv) (member : Member) : Option MemberClass :=
  let ext := memberExtension env member.filename
  if ext = "kicad_sym".toList then some .symbols
  else if ext = "kicad_mod".toList then some .footprint
  else if ext ∈ ["step", "stp", "wrl", "vrml"].map String.toList then some .datafile
  else if ext ∈ ["lib", "sub", "cir", "mod", "spice", "dcm"].map String.toList then
    some .maybeSpice
  else none

/-- One turn of the loop of `_walk_archive`. -/
def walkMember (env : ArchiveEnv) (col : Collector) (member : Member) :
    Except (Raised × Collector) Collector :=
  if col.room ≤ 0 then .ok { col with droppedMembers := col.droppedMembers + 1 }
  else match memberClass env member with
    | some .symbols => collectSymbols env member col
    | some .footprint => collectFootprint env member col
    | some .datafile => collectDatafile env member col
    | some .maybeSpice => collectMaybeSpice env member col
    | none => .ok (col.skip (memberBasename member.filename) skipUnsupported)

def walkMembers (env : ArchiveEnv) (members : List Member) (col : Collector) :
    Except (Raised × Collector) Collector :=
  members.foldlM (walkMember env) col

/-- The members that no room was left for are counted in one note. -/
def Collector.noteDropped (col : Collector) : Collector :=
  if col.droppedMembers = 0 then col
  else col.skip s!"{col.droppedMembers} files".toList skipEntryCap

structure ReadPlan where
  vendor : String
  symbols : List ReadEntry
  footprints : List ReadEntry
  datafiles : List PendingDatafile
  skipped : List Skipped

/-- What the constructor of `ZipFile` gives. -/
abbrev VendorArchive : Type := Except ReaderFault (List Member)

/-- The `try` of `_open_archive` -/
def openFault (f : ReaderFault) : Raised :=
  if f.caughtOpening then .rejected .notAnArchive else .fault f

/-- `_open_archive`, as far as the members that are no noise. -/
def openArchive (archive : VendorArchive) : Except (Raised × Collector) (List Member) := do
  let reject := fun r => (Raised.rejected r, Collector.empty)
  let members ← archive.mapError fun f => (openFault f, .empty)
  let members := members.filter fun member => !isNoise member
  Outcome.check (members.length ≤ maxMembers) (reject (.tooManyMembers members.length))
  let declared := (members.map (·.fileSize)).sum
  Outcome.check (declared ≤ maxUncompressedBytes) (reject (.declaredTooLarge declared))
  return members

/-- `read_archive`; the collector is returned beside the plan. -/
def readArchive (env : ArchiveEnv) (archive : VendorArchive) :
    Except (Raised × Collector) (ReadPlan × Collector) := do
  let members ← openArchive archive
  let vendor := detectVendor (members.map (·.filename))
  let walked ← walkMembers env members .empty
  let col := walked.noteDropped
  Outcome.check (¬(col.sawLegacySymbols = true ∧ col.symbols = []))
    (.rejected .legacyFormat, col)
  let plan : ReadPlan := ⟨vendor, col.symbols, col.footprints, col.datafiles, col.skipped⟩
  Outcome.check (col.held ≠ 0) (.rejected (.noEntries (plan.skipped.take 20)), col)
  return (plan, col)

end StockManager.Eda
