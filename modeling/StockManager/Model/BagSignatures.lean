import StockManager.Library.Utf16
import StockManager.Model.Values

/-! # Bag signatures (services/bag_signature.py, lib/bagCode.ts)

A Python `str` is a list of code points, a JavaScript string a list of UTF-16 code
units. SHA-256 is a parameter, from the bytes to their hexadecimal digest. -/

namespace StockManager.Bags

def jsWhitespace : List ℕ :=
  [0x09, 0x0A, 0x0B, 0x0C, 0x0D, 0x20, 0xA0, 0x1680, 0x2000, 0x2001, 0x2002, 0x2003, 0x2004, 0x2005,
    0x2006, 0x2007, 0x2008, 0x2009, 0x200A, 0x202F, 0x205F, 0x3000, 0xFEFF, 0x2028, 0x2029]

/-- `_js_trim`: one index walks in from each end. -/
def jsTrim (s : List ℕ) : List ℕ := Trim.trim (· ∈ jsWhitespace) s

def controlPictures : List (ℕ × ℕ) :=
  [(0x2404, 0x04), (0x241C, 0x1C), (0x241D, 0x1D), (0x241E, 0x1E), (0x241F, 0x1F), (0x2420, 0x20)]

/-- `s.replace(pic, ctrl)` for single characters -/
def replace (pic ctrl : ℕ) (s : List ℕ) : List ℕ := s.map fun c => if c = pic then ctrl else c

def normaliseControlPictures (s : List ℕ) : List ℕ :=
  controlPictures.foldl (fun s picture => if picture.1 ∈ s then replace picture.1 picture.2 s else s) s

/-- The character of a code point; a surrogate is none. -/
def scalar (c : ℕ) : Option Char := if c.isValidChar then some (Char.ofNat c) else none

def utf8 (chars : List Char) : ByteArray := (String.ofList chars).toByteArray

/-- What `compute_bag_signature` hashes. `encode` raises on a surrogate, and the
handler makes that nothing at all. -/
def hashedText (raw : List ℕ) : Option (List Char) :=
  let normalised := normaliseControlPictures (jsTrim raw)
  if normalised = [] then none else normalised.mapM scalar

def computeBagSignature (sha256 : ByteArray → String) (raw : List ℕ) : Option String :=
  (hashedText raw).map fun text => sha256 (utf8 text)

/-! ### The scanner in the browser -/

/-- White space and line terminators, of which `String.prototype.trim` frees both ends -/
def isWhiteSpace (unit : ℕ) : Bool :=
  unit = 0x09 || unit = 0x0B || unit = 0x0C || unit = 0xFEFF ||
    unit = 0x20 || unit = 0xA0 || unit = 0x1680 || (0x2000 ≤ unit && unit ≤ 0x200A) || unit = 0x202F ||
    unit = 0x205F || unit = 0x3000 ||
    unit = 0x0A || unit = 0x0D || unit = 0x2028 || unit = 0x2029

def normalizeControlPictures (s : List ℕ) : List ℕ :=
  replace 0x2420 0x20 (replace 0x241F 0x1F (replace 0x241E 0x1E (replace 0x241D 0x1D
    (replace 0x241C 0x1C (replace 0x2404 0x04 s)))))

/-- `new TextEncoder().encode`: a lone surrogate becomes the replacement character. -/
def encodedText (units : List ℕ) : List Char :=
  (Utf16.decode units).map fun c => (scalar c).getD '\uFFFD'

/-- What `bagSignature` hashes; nothing when `crypto.subtle` is not there. -/
def clientHashedText (subtle : Bool) (raw : List ℕ) : Option (List Char) :=
  let normalised := normalizeControlPictures (Trim.trim isWhiteSpace raw)
  if normalised = [] then none else if subtle then some (encodedText normalised) else none

def bagSignature (sha256 : ByteArray → String) (subtle : Bool) (raw : List ℕ) : Option String :=
  (clientHashedText subtle raw).map fun text => sha256 (utf8 text)

end StockManager.Bags
