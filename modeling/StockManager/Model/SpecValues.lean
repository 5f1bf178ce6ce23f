import StockManager.Library.DecimalContext
import StockManager.Library.Scan
import StockManager.Model.SpecSchema

/-! # Spec values (domain/parts/spec_values.py) -/

namespace StockManager.Specs

open DecimalContext (roundHalfUp toPlaces)
open Trim (trim)

abbrev Text : Type := List Char

theorem lawfulBEq_text : LawfulBEq Text := inferInstance

scoped instance (priority := 2000) decidableMemTexts (text : Text) (texts : List Text) : Decidable (text ∈ texts) :=
  @List.instDecidableMemOfLawfulBEq Text _ lawfulBEq_text text texts

/-- The tables, the values of digits of other scripts, and what the characters of a display are -/
structure ValueTables extends CharTables where
  digitValue : Char → ℕ
  decimal_ascii : ∀ c, c.toNat < 128 → isDecimal c = c.isDigit
  digitValue_ascii : ∀ c, c.isDigit → digitValue c = c.toNat - 48
  word_ascii : ∀ c, c.toNat < 128 → isWord c = (c.isAlphanum || c = '_')
  decimal_word : ∀ c, isDecimal c → isWord c
  decimal_not_space : ∀ c, isDecimal c → isSpace c = false
  decimal_symbols : isDecimal 'Ω' = false ∧ isDecimal 'µ' = false ∧ isDecimal '°' = false
  word_symbols : isWord 'Ω' = true ∧ isWord 'µ' = true ∧ isWord '°' = false

/-! ### Units -/

/-- `(symbol, scalable, space before unit)` -/
structure UnitEntry where
  symbol : Text
  scalable : Bool
  space : Bool
  deriving DecidableEq

def units : List (Text × UnitEntry) :=
  [(['o', 'h', 'm'], ⟨['Ω'], true, true⟩), (['o', 'h', 'm', 's'], ⟨['Ω'], true, true⟩),
    (['ω'], ⟨['Ω'], true, true⟩), (['f'], ⟨['F'], true, true⟩), (['h'], ⟨['H'], true, true⟩),
    (['v'], ⟨['V'], true, true⟩), (['v', 'd', 'c'], ⟨['V'], true, true⟩),
    (['v', 'a', 'c'], ⟨['V'], true, true⟩), (['a'], ⟨['A'], true, true⟩), (['w'], ⟨['W'], true, true⟩),
    (['h', 'z'], ⟨['H', 'z'], true, true⟩), (['s'], ⟨['s'], true, true⟩), (['m'], ⟨['m'], true, true⟩),
    (['c', 'd'], ⟨['c', 'd'], true, true⟩), (['v', 'a'], ⟨['V', 'A'], true, true⟩),
    (['c', 'y', 'c', 'l', 'e'], ⟨['c', 'y', 'c', 'l', 'e', 's'], false, true⟩),
    (['c', 'y', 'c', 'l', 'e', 's'], ⟨['c', 'y', 'c', 'l', 'e', 's'], false, true⟩),
    (['%'], ⟨['%'], false, false⟩), (['p', 'p', 'm'], ⟨['p', 'p', 'm'], false, true⟩),
    (['p', 'p', 'm', '/', '°', 'c'], ⟨['p', 'p', 'm', '/', '°', 'C'], false, true⟩),
    (['p', 'p', 'm', '/', 'c'], ⟨['p', 'p', 'm', '/', '°', 'C'], false, true⟩),
    (['p', 'p', 'm', '/', 'k'], ⟨['p', 'p', 'm', '/', '°', 'C'], false, true⟩),
    (['°', 'c'], ⟨['°', 'C'], false, false⟩), (['c'], ⟨['°', 'C'], false, false⟩),
    (['d', 'e', 'g', 'c'], ⟨['°', 'C'], false, false⟩)]

def exactUnits : List (Text × UnitEntry) := [(['N'], ⟨['N'], true, true⟩)]

/-- The values of `_UNIT_BY_SYMBOL` -/
def unitEntries : List UnitEntry := (units ++ exactUnits).map Prod.snd

def unitBySymbol (unit : Text) : UnitEntry :=
  (unitEntries.find? fun entry => entry.symbol = unit).getD ⟨unit, false, true⟩

def prefixExponents : List (Char × ℤ) :=
  [('T', 12), ('G', 9), ('M', 6), ('k', 3), ('K', 3), ('m', -3), ('u', -6), ('µ', -6), ('μ', -6),
    ('n', -9), ('p', -12)]

def displayPrefixes : List (ℤ × Text) :=
  [(12, ['T']), (9, ['G']), (6, ['M']), (3, ['k']), (0, []), (-3, ['m']), (-6, ['µ']), (-9, ['n']),
    (-12, ['p'])]

def displayPrefix (exponent : ℤ) : Text := (Dict.find exponent displayPrefixes).getD []

/-- `str.lower()`, as far as the keys of the units name its results -/
def lowerChar (c : Char) : Char :=
  if c = '\u212a' then 'k' else if c = 'Ω' ∨ c = '\u2126' then 'ω' else c.toLower

def findUnit (token : Text) : Option UnitEntry := Dict.find (token.map lowerChar) units

def findExactUnit (token : Text) : Option UnitEntry := Dict.find token exactUnits

def isScalable (symbol : Text) : Bool := (unitBySymbol symbol).scalable

/-! ### `format_si` -/

/-- The four digits of a number of ten-thousandths -/
def fourDigits (n : ℕ) : Text :=
  [(n / 1000 % 10).digitChar, (n / 100 % 10).digitChar, (n / 10 % 10).digitChar, (n % 10).digitChar]

/-- `text.rstrip("0")` -/
def dropZeros (text : Text) : Text := (text.reverse.dropWhile (· = '0')).reverse

/-- The point and the digits behind it, unless they are zeros -/
def fractionText (n : ℕ) : Text := if dropZeros (fourDigits n) = [] then [] else '.' :: dropZeros (fourDigits n)

/-- `value.quantize(Decimal("1.0000"), rounding=ROUND_HALF_UP)`, without its sign and its point -/
def tenThousandths (value : ℚ) : ℕ := (roundHalfUp (value * 10 ^ 4)).natAbs

def shownNumber (negative : Bool) (n : ℕ) : Text :=
  (if negative then ['-'] else []) ++ Nat.toDigits 10 (n / 10000) ++ fractionText (n % 10000)

/-- `_trim`, of a value that has at most 28 digits at four places -/
def trimNumber (value : ℚ) : Text :=
  if value = 0 then ['0'] else shownNumber (value < 0) (tenThousandths value)

def adjusted (value : ℚ) : ℤ := Int.log 10 |value|

def clampExponent (adjusted : ℤ) : ℤ := max (-12) (min 12 (adjusted / 3 * 3))

def scaleb (value : ℚ) (exponent : ℤ) : ℚ := DecimalContext.round (value * 10 ^ exponent)

/-- `_engineering`: the mantissa before it is trimmed, and its exponent -/
def engineering (value : ℚ) : ℚ × ℤ :=
  let exponent := clampExponent (adjusted value)
  -- a mantissa that is trimmed to 1000 belongs one decade up
  if 1000 * 10000 ≤ tenThousandths (scaleb value (-exponent)) ∧ exponent < 12 then
    (scaleb value (-(exponent + 3)), exponent + 3)
  else (scaleb value (-exponent), exponent)

def join (number symbol : Text) (space : Bool) : Text :=
  if space then trim isSpace (number ++ ' ' :: symbol) else number ++ symbol

/-- `format_si`, of a finite value in the range of the column -/
def formatSi (value : ℚ) (unit : Text) : Text :=
  let entry := unitBySymbol unit
  if entry.scalable = false ∨ value = 0 then join (trimNumber value) entry.symbol entry.space
  else
    let shown := engineering value
    join (trimNumber shown.1) (displayPrefix shown.2 ++ entry.symbol) entry.space

/-! ### The patterns -/

section Patterns

variable (py : ValueTables)

/-- `\s+` -/
def whitespaceHere : Scan.Pattern := fun _ text => some (text.takeWhile isSpace).length

/-- `(?<=\d),(?=\d{3}(?:\D|$))` -/
def thousandsHere : Scan.Pattern := fun before text =>
  if text.head? = some ',' ∧ before.any py.isDecimal ∧ ((text.tail.take 3).filter py.isDecimal).length = 3 ∧
      (text.drop 4).head?.any py.isDecimal = false then some 1
  else none

/-- The length of `~|\.\.\.|…|\bto\b`, or 0 -/
def separatorLength (before : Option Char) (text : Text) : ℕ :=
  if text.head? = some '~' then 1
  else if ['.', '.', '.'] <+: text then 3
  else if text.head? = some '…' then 1
  else if (text.take 2).map foldCase = ['t', 'o'] ∧ isBoundary py.toCharTables before text.head? ∧
      isBoundary py.toCharTables (text.drop 1).head? (text.drop 2).head? then 2
  else 0

/-- `\s*(?:~|\.\.\.|…|\bto\b)\s*` -/
def rangeHere : Scan.Pattern := fun before text =>
  let spaces := text.takeWhile isSpace
  let rest := text.dropWhile isSpace
  let length := separatorLength py (spaces.getLast?.or before) rest
  if length = 0 then none else some (spaces.length + length + ((rest.drop length).takeWhile isSpace).length)

/-- `,(?!\d)` -/
def valueHere : Scan.Pattern := fun _ text =>
  if text.head? = some ',' ∧ text.tail.head?.any py.isDecimal = false then some 1 else none

/-- `@|\s+at\s+|(?<=[^\d\s])\s*/\s*(?=\d)` -/
def conditionHere : Scan.Pattern := fun before text =>
  let spaces := text.takeWhile isSpace
  let rest := text.dropWhile isSpace
  if text.head? = some '@' then some 1
  else if spaces ≠ [] ∧ (rest.take 2).map foldCase = ['a', 't'] ∧ (rest.drop 2).head?.any isSpace then
    some (spaces.length + 2 + ((rest.drop 2).takeWhile isSpace).length)
  else if before.any (fun c => py.isDecimal c = false ∧ isSpace c = false) ∧ rest.head? = some '/' ∧
      (rest.tail.dropWhile isSpace).head?.any py.isDecimal then
    some (spaces.length + 1 + (rest.tail.takeWhile isSpace).length)
  else none

/-- `_PLUS_MINUS_RE.sub("", text)`: one leading `±`, or a `+` followed by a `-` or by a slash and a `-` -/
def dropPlusMinus (text : Text) : Text :=
  if text.head? = some '±' then text.tail.dropWhile isSpace
  else if ['+', '/', '-'] <+: text then (text.drop 3).dropWhile isSpace
  else if ['+', '-'] <+: text then (text.drop 2).dropWhile isSpace
  else text

/-- The words of `_QUALIFIER_RE` -/
def qualifierWords : List Text :=
  [['m', 'a', 'x'], ['m', 'i', 'n'], ['t', 'y', 'p'], ['t', 'y', 'p', 'i', 'c', 'a', 'l'],
    ['n', 'o', 'm'], ['n', 'o', 'm', 'i', 'n', 'a', 'l'], ['a', 'b', 's'], ['r', 'e', 'f'], ['t', 'a'],
    ['t', 'j'], ['t', 'c']]

def dropOne (c : Char) (text : Text) : Text := if text.head? = some c then text.tail else text

/-- `\s*\(?\b(?:words)\b\.?\)?\s*$` matches from here to the end. -/
def qualifierHere (before : Option Char) (text : Text) : Bool :=
  let rest := text.dropWhile isSpace
  let inner := dropOne '(' rest
  let last := if rest.head? = some '(' then some '(' else (text.takeWhile isSpace).getLast?.or before
  last.any py.isWord = false ∧ (inner.takeWhile py.isWord).map foldCase ∈ qualifierWords ∧
    (dropOne ')' (dropOne '.' (inner.dropWhile py.isWord))).all isSpace

/-- `_QUALIFIER_RE.sub("", head)` -/
def dropQualifier : Option Char → Text → Text
  | _, [] => []
  | before, c :: rest =>
    if qualifierHere py before (c :: rest) then [] else c :: dropQualifier (some c) rest

/-- The loop over the qualifiers; each turn that changes the text makes it shorter. -/
def stripQualifiers : ℕ → Text → Text
  | 0, head => head
  | turns + 1, head =>
    let stripped := trim isSpace (dropQualifier py none head)
    if stripped = head then head else stripQualifiers turns stripped

/-! ### Numbers and units -/

def digitsNumber (digits : Text) : ℕ := digits.foldl (fun n c => 10 * n + py.digitValue c) 0

def signed (negative : Bool) (value : ℚ) : ℚ := if negative then -value else value

/-- `_NUMBER_RE` and `_to_decimal` behind the sign -/
def readUnsigned (negative : Bool) (text : Text) : Option (Option ℚ × Text) :=
  let whole := text.takeWhile py.isDecimal
  let after := text.dropWhile py.isDecimal
  let second := after.tail.takeWhile py.isDecimal
  let behind := after.tail.dropWhile py.isDecimal
  if whole = [] then none
  else if after.head? = some '/' ∧ second ≠ [] then
    some (if digitsNumber py second = 0 then none
      else some (DecimalContext.round (signed negative (digitsNumber py whole) / digitsNumber py second)),
      behind)
  else if after.head? = some '.' ∧ second ≠ [] then
    some (some (signed negative (digitsNumber py (whole ++ second) / 10 ^ second.length)), behind)
  else some (some (signed negative (digitsNumber py whole)), after)

/-- The number, unless its denominator is 0, and the rest -/
def readNumber (head : Text) : Option (Option ℚ × Text) :=
  readUnsigned py (head.head? = some '-')
    (if head.head? = some '+' ∨ head.head? = some '-' then head.tail else head)

def resolveUnit (rest : Text) (unitHint : Option Text) : Option (Text × ℤ) :=
  let token := rest.filter (· ≠ ' ')
  let hint := unitHint.getD []
  match token with
  | [] => if hint = [] then none else some (hint, 0)
  | first :: tail =>
    let exponent := Dict.find first prefixExponents
    if tail = [] ∧ exponent.isSome ∧ token ≠ hint ∧ hint ≠ [] then
      if isScalable hint then exponent.map fun e => (hint, e) else none
    else if tail = [] ∧ exponent.isSome ∧ token ≠ hint ∧ token ∉ Dict.keys units then none
    else match (findExactUnit token).or (findUnit token) with
      | some entry => some (entry.symbol, 0)
      | none =>
        if tail = [] then none
        else exponent.bind fun e =>
          ((findExactUnit tail).or (findUnit tail)).map fun entry => (entry.symbol, e)

/-- `_fit_to_column`: eighteen digits on each side of the point -/
def fitToColumn (value : ℚ) : Option ℚ :=
  if value = 0 then some value
  else if -18 ≤ adjusted value ∧ adjusted value ≤ 17 then some (toPlaces roundHalfUp 18 value)
  else none

/-! ### `_parse` -/

structure Parsed where
  valueNum : Option ℚ
  unit : Text
  display : Text
  deriving DecidableEq

def dashes : List Text := [['-'], ['–'], ['—'], ['-', '-']]

def maxInputChars : ℕ := 200

/-- The text that is parsed, without the commas of thousands -/
def bodyOf (text : Text) : Option Text :=
  let body := trim isSpace (Scan.substitute whitespaceHere [' '] text)
  if body = [] ∨ body ∈ dashes ∨ maxInputChars < body.length then none
  else some (Scan.substitute (thousandsHere py) [] body)

/-- The leading term, without its sign of tolerance and its qualifiers -/
def headOf (body : Text) : Text :=
  let first := ((Scan.split (valueHere py) body).head?).getD []
  let head := trim isSpace (((Scan.split (conditionHere py) first).head?).getD [])
  let bare := trim isSpace (dropPlusMinus head)
  stripQualifiers py bare.length bare

/-- What `_parse` makes of a body that is not a range -/
def parseScalar (body : Text) (unitHint : Option Text) : Option Parsed :=
  let head := headOf py body
  if head = [] then none
  else (readNumber py head).bind fun read => read.1.bind fun number =>
    (resolveUnit (trim isSpace read.2) unitHint).bind fun resolved =>
      (fitToColumn (scaleb number resolved.2)).map fun value =>
        ⟨some value, resolved.1, formatSi value resolved.1⟩

/-- The two parts of a range -/
def rangeParts (body : Text) : Option (Text × Text) :=
  match Scan.split (rangeHere py) body with
  | [low, high] => if trim isSpace low = [] ∨ trim isSpace high = [] then none else some (low, high)
  | _ => none

/-- `_parse_range`, of its parsed ends -/
def joinRange (low high : Parsed) : Parsed where
  valueNum := none
  unit := if low.unit = [] then high.unit else low.unit
  display := low.display ++ [' ', '~', ' '] ++ high.display

/-- `_parse`; the parts of a range are shorter than their text. -/
def parseWith : ℕ → Text → Option Text → Option Parsed
  | 0, _, _ => none
  | depth + 1, text, unitHint =>
    (bodyOf py text).bind fun body =>
      (((rangeParts py body).bind fun parts => (parseWith depth parts.1 unitHint).bind fun low =>
        (parseWith depth parts.2 unitHint).map fun high => joinRange low high)).or
          (parseScalar py body unitHint)

/-- `parse_si` -/
def parseText (text : Text) (unitHint : Option Text) : Option Parsed :=
  parseWith py (text.length + 1) text unitHint

end Patterns

end StockManager.Specs

/-! ## The part of a value that a key is about, and stored values read again
(domain/parts/spec_extract.py, `canonical_value`) -/

namespace StockManager.Specs

open Trim (trim)

section Extractors

variable (py : ValueTables)

def isParenthesis (c : Char) : Bool := c = '(' || c = ')'

/-- A digit and, behind it, `mm` or `cm` at the end of a word -/
def hasMetric (content : Text) : Bool :=
  (content.dropWhile fun c => ¬ py.isDecimal c).tail.tails.any fun text =>
    (text.take 2).map foldCase ∈ [['m', 'm'], ['c', 'm']] ∧ (text.drop 2).head?.any py.isWord = false

/-- `_METRIC_PAREN_RE.findall`: no group holds a parenthesis. -/
def metricGroups : Text → List Text
  | [] => []
  | c :: rest =>
    let content := rest.takeWhile fun d => ¬ isParenthesis d
    if c = '(' ∧ (rest.drop content.length).head? = some ')' ∧ hasMetric py content then
      content :: metricGroups rest
    else metricGroups rest

def metric (value : Text) : Option Text :=
  let text := trim isSpace value
  if text = [] then none else some (((metricGroups py text).getLast?.map (trim isSpace)).getD text)

/-- `\s+[x×]\s+` -/
def dimensionHere : Scan.Pattern := fun _ text =>
  let spaces := text.takeWhile isSpace
  let rest := text.dropWhile isSpace
  let behind := rest.tail.takeWhile isSpace
  if spaces ≠ [] ∧ rest.head?.any (fun c => foldCase c = 'x' ∨ c = '×') ∧ behind ≠ [] then
    some (spaces.length + 1 + behind.length)
  else none

/-- The parts of `_dimension` -/
def dimensionParts (text : Text) : List Text :=
  ((Scan.split dimensionHere text).map (trim isSpace)).filter (· ≠ [])

def dimensionFirst (value : Text) : Option Text := (metric py value).bind fun text => (dimensionParts text).head?

def dimensionLast (value : Text) : Option Text :=
  (metric py value).bind fun text => (dimensionParts text).getLast?

/-- `AEC[\s-]?Q\s?(\d{3})\b` at the head of a text -/
def aecDigits (text : Text) : Option Text :=
  let gap := text.drop 3
  let grade := if gap.head?.any (fun c => isSpace c ∨ c = '-') then gap.tail else gap
  let behind := if grade.tail.head?.any isSpace then grade.tail.tail else grade.tail
  let digits := behind.take 3
  if (text.take 3).map foldCase = ['a', 'e', 'c'] ∧ grade.head?.map foldCase = some 'q' ∧ digits.length = 3 ∧
      digits.all py.isDecimal ∧ (behind.drop 3).head?.any py.isWord = false then some digits
  else none

/-- `_AEC_RE.search`: the digits of the leftmost match -/
def findAec : Option Char → Text → Option Text
  | _, [] => none
  | before, c :: rest =>
    (if before.any py.isWord then none else aecDigits py (c :: rest)).or (findAec (some c) rest)

def aecQualification (value : Text) : Option Text :=
  (findAec py none value).map fun digits => ['A', 'E', 'C', '-', 'Q'] ++ digits

/-- `EXTRACTORS` -/
def extractText : Extractor → Text → Option Text
  | .metric => metric py
  | .dimensionFirst => dimensionFirst py
  | .dimensionLast => dimensionLast py
  | .aecQualification => aecQualification py

/-- `extract_for` and `parse_si` -/
def valueReaders : Readers where
  extractFor name value := (extractText py name value.toList).map String.ofList
  parseSi text unitHint := (parseText py text.toList (unitHint.map String.toList)).map fun parsed =>
    ⟨parsed.valueNum, String.ofList parsed.unit, String.ofList parsed.display⟩

end Extractors

def canonicalValue (readers : Readers) (categorySlug : Option String) (key rawValue : String) :
    Option SpecValue :=
  ((specKeysFor categorySlug).find? fun spec => spec.key = key).bind fun spec =>
    toSpecValue readers spec key rawValue

end StockManager.Specs
