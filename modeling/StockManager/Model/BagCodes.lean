import StockManager.Library.Binary64
import StockManager.Model.BagSignatures

/-! # Bag codes (lib/bagCode.ts)

The fields of the Data Matrix codes that distributors print on component bags. Texts are lists
of UTF-16 units, as in a JavaScript string. -/

namespace StockManager.Bags

open Binary64 (Double)

def ascii (text : List Char) : List ℕ := text.map Char.toNat

def trim (s : List ℕ) : List ℕ := Trim.trim isWhiteSpace s

@[ext]
structure BagCode where
  mpn : List ℕ
  quantity : Option ℚ := none
  distributorPn : Option (List ℕ) := none
  manufacturer : Option (List ℕ) := none
  dateCode : Option (List ℕ) := none
  lotBatch : Option (List ℕ) := none
  serial : Option (List ℕ) := none
  customerRef : Option (List ℕ) := none
  poNumber : Option (List ℕ) := none
  lineItem : Option (List ℕ) := none
  invoiceRef : Option (List ℕ) := none
  raw : List ℕ
  deriving DecidableEq

/-- The alternatives of `SEPARATOR_RE` -/
def separators : List (List ℕ) :=
  [ascii ['\x7b', 'G', 'S', '\x7d'], ascii ['<', 'F', 'N', 'C', '1', '>'],
    [0x1C], [0x1D], [0x1E], [0x1F], [0x04]]

def separatorAt (s : List ℕ) : Option (List ℕ) := separators.find? (·.isPrefixOf s)

/-- `split(SEPARATOR_RE)`; `skip` units of a separator are still to be passed. -/
def splitFrom : ℕ → List ℕ → List (List ℕ)
  | _, [] => [[]]
  | skip + 1, _ :: rest => splitFrom skip rest
  | 0, c :: rest =>
    match separatorAt (c :: rest) with
    | some separator => [] :: splitFrom (separator.length - 1) rest
    | none => (splitFrom 0 rest).modifyHead (c :: ·)

inductive DataIdentifier
  | di30P | di11K | di14K | di1P | di1K | di10D | di13Z | di1T | di1S | di1V | di9D | di4L
  | diP | diK | diQ | diT
  deriving DecidableEq

def DataIdentifier.code : DataIdentifier → List ℕ
  | .di30P => ascii ['3', '0', 'P']
  | .di11K => ascii ['1', '1', 'K']
  | .di14K => ascii ['1', '4', 'K']
  | .di1P => ascii ['1', 'P']
  | .di1K => ascii ['1', 'K']
  | .di10D => ascii ['1', '0', 'D']
  | .di13Z => ascii ['1', '3', 'Z']
  | .di1T => ascii ['1', 'T']
  | .di1S => ascii ['1', 'S']
  | .di1V => ascii ['1', 'V']
  | .di9D => ascii ['9', 'D']
  | .di4L => ascii ['4', 'L']
  | .diP => ascii ['P']
  | .diK => ascii ['K']
  | .diQ => ascii ['Q']
  | .diT => ascii ['T']

def diList : List DataIdentifier :=
  [.di30P, .di11K, .di14K, .di1P, .di1K, .di10D, .di13Z, .di1T, .di1S, .di1V,
    .di9D, .di4L, .diP, .diK, .diQ, .diT]

/-- What one turn of `findDI` finds in the trimmed field. -/
def valueAfter (f : List ℕ) (di : DataIdentifier) : Option (DataIdentifier × List ℕ) :=
  if di.code.isPrefixOf f then
    let value := trim (f.drop di.code.length)
    if value = [] then none else some (di, value)
  else none

def findDI (field : List ℕ) : Option (DataIdentifier × List ℕ) :=
  diList.findSome? (valueAfter (trim field))

/-- `[A-Z0-9]` -/
def isUpperOrDigit (unit : ℕ) : Bool :=
  (0x41 ≤ unit && unit ≤ 0x5A) || (0x30 ≤ unit && unit ≤ 0x39)

/-- The match of `inlineSplit`'s expression at a place, from the unit before it -/
def inlineDI (before : Option ℕ) (s : List ℕ) : Option DataIdentifier :=
  if before.any isUpperOrDigit then none else diList.find? fun di => di.code.isPrefixOf s

/-- `starts`; the scan goes on behind a match. -/
def startsFrom : ℕ → ℕ → Option ℕ → List ℕ → List ℕ
  | _, _, _, [] => []
  | index, skip + 1, _, c :: rest => startsFrom (index + 1) skip (some c) rest
  | index, 0, before, c :: rest =>
    match inlineDI before (c :: rest) with
    | some di => index :: startsFrom (index + 1) (di.code.length - 1) (some c) rest
    | none => startsFrom (index + 1) 0 (some c) rest

def inlineSplit (s : List ℕ) : List (List ℕ) :=
  let starts := startsFrom 0 0 none s
  if starts = [] then [s]
  else ((starts.zip (starts.tail ++ [s.length])).map fun ab =>
    trim ((s.take ab.2).drop ab.1)).filter (· ≠ [])

/-- An optional control character of the header -/
def dropMark (mark : ℕ) (s : List ℕ) : List ℕ := if s.head? = some mark then s.tail else s

/-- `[)>` -/
def headerMark : List ℕ := ascii ['[', ')', '>']

/-- `06` -/
def formatMark : List ℕ := ascii ['0', '6']

/-- `s.replace(/^\[\)>[\x1e]?06[\x1d]?/, "")` -/
def replaceMarked (s : List ℕ) : List ℕ :=
  if headerMark.isPrefixOf s then
    let rest := dropMark 0x1E (s.drop headerMark.length)
    if formatMark.isPrefixOf rest then dropMark 0x1D (rest.drop formatMark.length) else s
  else s

def stripHeader (s : List ℕ) : List ℕ :=
  let s := replaceMarked s
  if (headerMark ++ formatMark).isPrefixOf s then s.drop (headerMark ++ formatMark).length else s

def isDigit (unit : ℕ) : Bool := 0x30 ≤ unit && unit ≤ 0x39

def parseInt (s : List ℕ) : Double :=
  let s := s.dropWhile isWhiteSpace
  let digits := (if s.head? = some 0x2B ∨ s.head? = some 0x2D then s.tail else s).takeWhile isDigit
  let n : ℕ := digits.foldl (fun n unit => 10 * n + (unit - 0x30)) 0
  if digits = [] then .nan else Binary64.ofRat (if s.head? = some 0x2D then -n else n)

/-- A quantity is finite and positive. -/
def quantityOf (value : List ℕ) : Option ℚ :=
  match parseInt value with
  | .finite n => if 0 < n then some n else none
  | _ => none

/-- `if (!slot) slot = value` -/
def setOnce (slot : Option (List ℕ)) (value : List ℕ) : Option (List ℕ) :=
  if slot.getD [] = [] then some value else slot

/-- The turn of the loop for a chunk in which `findDI` finds a field -/
def takeField (out : BagCode) (f : DataIdentifier × List ℕ) : BagCode :=
  match f.1 with
  | .di1P => { out with mpn := f.2 }
  | .di30P => { out with distributorPn := setOnce out.distributorPn f.2 }
  | .diP => { out with distributorPn := setOnce out.distributorPn f.2 }
  | .diQ => { out with quantity := (quantityOf f.2).or out.quantity }
  | .di1V => { out with manufacturer := some f.2 }
  | .di10D => { out with dateCode := setOnce out.dateCode f.2 }
  | .di9D => { out with dateCode := setOnce out.dateCode f.2 }
  | .di1T => { out with lotBatch := some f.2 }
  | .di1S => { out with serial := some f.2 }
  | .diK => { out with customerRef := some f.2 }
  | .di1K => { out with poNumber := some f.2 }
  | .di14K => { out with lineItem := some f.2 }
  | .di11K => { out with invoiceRef := some f.2 }
  | .di4L => out
  | .di13Z => out
  | .diT => out

/-- The passes over the text without its header -/
def chunksOf (stripped : List ℕ) : List (List ℕ) :=
  let chunks := ((splitFrom 0 stripped).map trim).filter (· ≠ [])
  if chunks.length ≤ 1 then inlineSplit stripped else chunks

/-- `input` of the parser -/
def inputOf (raw : List ℕ) : List ℕ := normalizeControlPictures (trim raw)

def parseBagCode (raw : List ℕ) : BagCode :=
  let input := inputOf raw
  let fields := (chunksOf (stripHeader input)).filterMap findDI
  let out := fields.foldl takeField { mpn := [], raw := raw }
  if input = [] then { mpn := [], raw := raw }
  else if fields = [] ∧ ¬headerMark.isPrefixOf input then { mpn := input, raw := raw }
  else if out.mpn = [] then { out with mpn := input } else out

end StockManager.Bags
