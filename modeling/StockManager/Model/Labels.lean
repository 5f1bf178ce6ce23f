import Mathlib
import StockManager.Library.Outcome
import StockManager.Library.PlainText

/-! # Labels (domain/printing/{schemas,label_render}.py, cab_squix/elements.py)

Python's character tables, its readers of numbers and its `repr` of a float are parameters;
a float is a double, and `:g` is defined on its bits. -/

namespace StockManager.Labels

open PlainText (Plain)

abbrev Text : Type := List Char

/-! ### Values -/

/-- What JSONB holds. -/
inductive Json
  | null
  | bool (b : Bool)
  | int (n : ℤ)
  | float (x : Float)
  | str (text : Text)
  | arr (items : List Json)
  | obj (fields : List (Text × Json))

structure Python where
  isSpace : Char → Bool
  /-- `\w` -/
  isWord : Char → Bool
  isDigit : Char → Bool
  isPrintable : Char → Bool
  upper : Text → Text
  /-- `float(text)` and `int(text)`, where they do not raise `ValueError` -/
  parseFloat : Text → Option Float
  parseInt : Text → Option ℤ
  reprFloat : Float → { text : Text // Plain text }

inductive LabelError
  /-- `LabelRenderError` -/
  | render (message : String)
  /-- `LABEL_TEMPLATE_INVALID` -/
  | invalid (message : Text)
  /-- `OverflowError`, which nothing on the way catches -/
  | overflow
  deriving DecidableEq

/-! ### Numbers as text -/

def decimal (n : ℕ) : Text := Nat.toDigits 10 n

def decimalInt : ℤ → Text
  | .ofNat n => decimal n
  | .negSucc n => '-' :: decimal (n + 1)

/-- The size of a double: a fraction, if it is finite. -/
inductive Magnitude
  | nan
  | infinite
  | finite (num den : ℕ)

def magnitude (x : Float) : Magnitude :=
  let bits := x.toBits.toNat
  let fraction := bits % 2 ^ 52
  let exponent := bits / 2 ^ 52 % 2048
  if exponent = 2047 then if fraction = 0 then .infinite else .nan
  else if exponent = 0 then .finite fraction (2 ^ 1074)
  else if 1075 ≤ exponent then .finite ((2 ^ 52 + fraction) * 2 ^ (exponent - 1075)) 1
  else .finite (2 ^ 52 + fraction) (2 ^ (1075 - exponent))

def isNegative (x : Float) : Bool := x.toBits.toNat / 2 ^ 63 = 1

/-- To the nearest, a tie to the even. -/
def roundHalfEven (num den : ℕ) : ℕ :=
  if 2 * (num % den) < den ∨ (2 * (num % den) = den ∧ num / den % 2 = 0) then num / den
  else num / den + 1

/-- The power of ten of the first digit. -/
def decimalExponent (num den : ℕ) : ℤ :=
  if den ≤ num then Nat.log 10 (num / den) else -(Nat.clog 10 ((den + num - 1) / num) : ℤ)

def stripZeros (digits : Text) : Text := (digits.reverse.dropWhile (· = '0')).reverse

/-- What stands behind the point, and the point. -/
def afterPoint (digits : Text) : Text :=
  if stripZeros digits = [] then [] else '.' :: stripZeros digits

/-- The six digits of a number and the power of ten of the first. -/
def sixDigits (num den : ℕ) : Text × ℤ :=
  let exponent := decimalExponent num den
  let digits := roundHalfEven (num * 10 ^ (5 - exponent).toNat) (den * 10 ^ (exponent - 5).toNat)
  if digits = 10 ^ 6 then (decimal (10 ^ 5), exponent + 1) else (decimal digits, exponent)

def exponentText (exponent : ℤ) : Text :=
  (if exponent < 0 then '-' else '+') ::
    ((if exponent.natAbs < 10 then ['0'] else []) ++ decimal exponent.natAbs)

def formatFinite (num den : ℕ) : Text :=
  if num = 0 then ['0']
  else
    let (digits, exponent) := sixDigits num den
    if -4 ≤ exponent ∧ exponent < 0 then
      '0' :: afterPoint (List.replicate (-exponent - 1).toNat '0' ++ digits)
    else if 0 ≤ exponent ∧ exponent < 6 then
      digits.take (exponent + 1).toNat ++ afterPoint (digits.drop (exponent + 1).toNat)
    else digits.take 1 ++ (afterPoint (digits.drop 1) ++ 'e' :: exponentText exponent)

/-- `f"{x:g}"` -/
def formatG (x : Float) : Text :=
  let sign := if isNegative x then ['-'] else []
  match magnitude x with
  | .nan => "nan".toList
  | .infinite => sign ++ "inf".toList
  | .finite num den => sign ++ formatFinite num den

/-! ### `str`, `float` and `int` of a value -/

section Values

variable (py : Python)

def hexText (width n : ℕ) : Text :=
  List.replicate (width - (Nat.toDigits 16 n).length) '0' ++ Nat.toDigits 16 n

/-- A character of `repr` of a string between the quotes `quote`. -/
def reprChar (quote c : Char) : Text :=
  if c = quote ∨ c = '\\' then ['\\', c]
  else if c = '\t' then ['\\', 't']
  else if c = '\n' then ['\\', 'n']
  else if c = '\r' then ['\\', 'r']
  else if 32 ≤ c.toNat ∧ c.toNat < 127 then [c]
  else if 127 < c.toNat ∧ py.isPrintable c then [c]
  else if c.toNat < 256 then '\\' :: 'x' :: hexText 2 c.toNat
  else if c.toNat < 65536 then '\\' :: 'u' :: hexText 4 c.toNat
  else '\\' :: 'U' :: hexText 8 c.toNat

def reprText (text : Text) : Text :=
  let quote := if '\'' ∈ text ∧ '"' ∉ text then '"' else '\''
  quote :: (text.flatMap (reprChar py quote) ++ [quote])

mutual

def Json.repr : Json → Text
  | .null => "None".toList
  | .bool b => if b then "True".toList else "False".toList
  | .int n => decimalInt n
  | .float x => (py.reprFloat x).1
  | .str text => reprText py text
  | .arr items => '[' :: (reprItems items ++ [']'])
  | .obj fields => '\x7b' :: (reprFields fields ++ ['\x7d'])

def reprItems : List Json → Text
  | [] => []
  | item :: rest => Json.repr item ++ ((if rest.isEmpty then [] else [',', ' ']) ++ reprItems rest)

def reprFields : List (Text × Json) → Text
  | [] => []
  | (key, value) :: rest => reprText py key ++ (':' :: ' ' :: Json.repr value) ++
      ((if rest.isEmpty then [] else [',', ' ']) ++ reprFields rest)

end

/-- `str(value)` -/
def pyStr : Json → Text
  | .str text => text
  | value => value.repr py

def Json.truthy : Json → Bool
  | .null => false
  | .bool b => b
  | .int n => n ≠ 0
  | .float x => !(x == 0)
  | .str text => !text.isEmpty
  | .arr items => !items.isEmpty
  | .obj fields => !fields.isEmpty

/-- The integers that round to no finite double. -/
def floatOfInt (n : ℤ) : Except LabelError Float :=
  if 2 ^ 1024 - 2 ^ 970 ≤ n.natAbs then .error .overflow else .ok (Float.ofInt n)

/-- `_float` -/
def pyFloat (value : Option Json) (default : Float) : Except LabelError Float :=
  match value with
  | some (.bool b) => .ok (if b then 1 else 0)
  | some (.int n) => floatOfInt n
  | some (.float x) => .ok x
  | some (.str text) => .ok ((py.parseFloat text).getD default)
  | _ => .ok default

/-- `_int` -/
def pyInt (value : Option Json) (default : ℤ) : Except LabelError ℤ :=
  match value with
  | some (.bool b) => .ok (if b then 1 else 0)
  | some (.int n) => .ok n
  | some (.float x) =>
    match magnitude x with
    | .nan => .ok default
    | .infinite => .error .overflow
    | .finite num den => .ok (if isNegative x then -(num / den : ℕ) else (num / den : ℕ))
  | some (.str text) => .ok ((py.parseInt text).getD default)
  | _ => .ok default

/-! ### Elements and templates -/

/-- A stored element. -/
abbrev Element : Type := List (Text × Json)

/-- `element.get(key)`; `None` and an absent key are the same. -/
def Element.get (element : Element) (key : String) : Option Json :=
  match element.find? fun field => field.1 = key.toList with
  | some (_, .null) => none
  | some (_, value) => some value
  | none => none

def Element.kind (element : Element) : Option Text :=
  match element.get "kind" with
  | some (.str kind) => some kind
  | _ => none

def qrKind : Text := "qr".toList
def textKind : Text := "text".toList
def barcode1dKind : Text := "barcode1d".toList
def handwritingKind : Text := "handwriting".toList

def elementKinds : List Text := [qrKind, textKind, barcode1dKind, handwritingKind]

def declaredFields : List Text :=
  ["kind".toList, "x_mm".toList, "y_mm".toList, "rotation".toList, "text".toList, "binding".toList]

structure ElementIn where
  kind : Text
  xMm : Float
  yMm : Float
  rotation : Fin 360
  text : Option { text : Text // text.length ≤ 2000 }
  binding : Option { binding : Text // binding.length ≤ 64 }
  extra : { fields : List (Text × Json) // ∀ field ∈ fields, field.1 ∉ declaredFields }

def Json.isNull : Json → Bool
  | .null => true
  | _ => false

def ElementIn.modelDump (element : ElementIn) : Element :=
  [("kind".toList, .str element.kind), ("x_mm".toList, .float element.xMm),
    ("y_mm".toList, .float element.yMm), ("rotation".toList, .int element.rotation)] ++
  (element.text.map fun text => ("text".toList, Json.str text)).toList ++
  (element.binding.map fun binding => ("binding".toList, Json.str binding)).toList ++
  element.extra.1.filter fun field => !field.2.isNull

def validateElements (elements : List ElementIn) : Except LabelError (List Element) :=
  elements.mapM fun element => do
    Outcome.check (element.kind ∈ elementKinds) (.invalid ("unknown element kind ".toList ++
      (reprText py element.kind ++ ("; allowed: ".toList ++ [',', ' '].intercalate elementKinds))))
    return element.modelDump

inductive PrintMethod
  | transfer | direct
  deriving DecidableEq

def PrintMethod.str : PrintMethod → Text
  | transfer => ['T']
  | direct => ['D']

structure Template where
  widthMm : Float
  heightMm : Float
  gapMm : Float
  heat : ℕ
  speed : ℕ
  method : PrintMethod
  elements : List Element

/-- The fields of `TemplateCreate` that are printed. -/
structure TemplateCreate where
  widthMm : Float
  heightMm : Float
  gapMm : Float
  heat : Fin 201
  speed : Fin 401
  method : PrintMethod
  elements : { elements : List ElementIn // elements.length ≤ 100 }

structure TemplateUpdate where
  widthMm : Option Float
  heightMm : Option Float
  gapMm : Option Float
  heat : Option (Fin 201)
  speed : Option (Fin 401)
  method : Option PrintMethod
  elements : Option { elements : List ElementIn // elements.length ≤ 100 }

def createTemplate (payload : TemplateCreate) : Except LabelError Template := do
  let elements ← validateElements py payload.elements
  return ⟨payload.widthMm, payload.heightMm, payload.gapMm, payload.heat, payload.speed,
    payload.method, elements⟩

def updateTemplate (payload : TemplateUpdate) (row : Template) : Except LabelError Template := do
  let elements ← payload.elements.elim (.ok row.elements) fun elements =>
    validateElements py elements
  return ⟨payload.widthMm.getD row.widthMm, payload.heightMm.getD row.heightMm,
    payload.gapMm.getD row.gapMm, (payload.heat.map Fin.val).getD row.heat,
    (payload.speed.map Fin.val).getD row.speed, payload.method.getD row.method, elements⟩

/-- The templates the two routes store. -/
inductive Accepted : Template → Prop
  | created {payload : TemplateCreate} {row : Template} :
    createTemplate py payload = .ok row → Accepted row
  | updated {payload : TemplateUpdate} {row later : Template} :
    Accepted row → updateTemplate py payload row = .ok later → Accepted later

/-! ### Texts of an element -/

/-- What the bindings of a label stand for. -/
abbrev Context : Type := Text → Option Text

def strip (text : Text) : Text :=
  ((text.dropWhile py.isSpace).reverse.dropWhile py.isSpace).reverse

def isControl (c : Char) : Bool := c.toNat < 32 ∨ c.toNat = 127

def sanitize (value : Text) : Text :=
  strip py (value.map fun c => if isControl c ∨ c = ';' then ' ' else c)

/-- `_BINDING_RE` at the start of the text: the token, and what follows the match. -/
def matchBinding : Text → Option (Text × Text)
  | '\x7b' :: '\x7b' :: rest =>
    let later := rest.dropWhile py.isSpace
    let token := later.takeWhile py.isWord
    match token, (later.dropWhile py.isWord).dropWhile py.isSpace with
    | c :: token, '\x7d' :: '\x7d' :: after => some (c :: token, after)
    | _, _ => none
  | _ => none

/-- The text behind a match is not looked at again: `skip` characters of it are left. -/
def resolveFrom (context : Context) : ℕ → Text → Text
  | _, [] => []
  | skip + 1, _ :: rest => resolveFrom context skip rest
  | 0, c :: rest =>
    match matchBinding py (c :: rest) with
    | some (token, after) =>
      (context token).getD [] ++ resolveFrom context (rest.length - after.length) rest
    | none => c :: resolveFrom context 0 rest

def resolveBindings (context : Context) (source : Text) : Text := resolveFrom py context 0 source

def textMaxLen : ℕ := 2000

def braced (token : Text) : Text := '\x7b' :: '\x7b' :: (token ++ ['\x7d', '\x7d'])

def resolveText (element : Element) (context : Context) : Text :=
  let raw := match element.get "text" with
    | some value => pyStr py value
    | none =>
      match (element.get "binding").filter Json.truthy with
      | some binding => braced (pyStr py binding)
      | none => []
  (sanitize py (resolveBindings py context raw)).take textMaxLen

def qrPayload (element : Element) (context : Context) : Text :=
  let raw := match element.get "text" with
    | some value => pyStr py value
    | none => braced (((element.get "binding").filter Json.truthy).elim "url".toList (pyStr py))
  (sanitize py (resolveBindings py context raw)).take textMaxLen

/-! ### Lines -/

def ecOptions (ec : Option Json) : Text :=
  let level := py.upper (((ec.filter Json.truthy).elim ['M'] (pyStr py)))
  let level := if level ∈ [['L'], ['M'], ['Q'], ['H']] then level else ['M']
  "+EL".toList ++ (level ++ "+MODEL2".toList)

/-- The name of a downloaded font. -/
def namedFont (value : Option Json) : Option Text :=
  match value with
  | some (.str font) =>
    if strip py font ≠ [] ∧ ¬ (strip py font).all py.isDigit then some (strip py font) else none
  | _ => none

def fontNumberBase : ℕ := 10

/-- `_font`; the names are numbered in their order. -/
def fontNumber (value : Option Json) (names : List Text) : Except LabelError ℤ :=
  match namedFont py value with
  | some name => .ok (if name ∈ names then fontNumberBase + names.idxOf name else fontNumberBase)
  | none => pyInt py value 3

def cabRotation (value : Option Json) : Except LabelError ℤ :=
  (pyInt py value 0).map fun rotation => (360 - rotation) % 360

def textBaselineAnchor (x y : Float) (sizePt rotationCw : ℤ) : Except LabelError (Float × Float) := do
  let size ← floatOfInt sizePt
  let degrees ← floatOfInt rotationCw
  let ascentMm := 0.8 * size * 0.352778
  let phi := degrees * (3.141592653589793 / 180)
  return (x - ascentMm * phi.sin, y + ascentMm * phi.cos)

/-- Texts with a comma between each two. -/
def commas (fields : List Text) : Text := [','].intercalate fields

/-- `Text.to_jscript` -/
def textLine (x y : Float) (content : Text) (font sizePt rotation : ℤ) : Text :=
  'T' :: ' ' :: (commas [formatG x, formatG y, decimalInt rotation, decimalInt font,
    'p' :: 't' :: decimalInt sizePt] ++ ';' :: content)

/-- `Barcode1D.to_jscript`, without a ratio and options -/
def barcode1dLine (x y : Float) (content type : Text) (heightMm neMm : Float) (rotation : ℤ) : Text :=
  'B' :: ' ' :: (commas [formatG x, formatG y, decimalInt rotation, type, formatG heightMm,
    formatG neMm] ++ ';' :: content)

/-- `Barcode2D.to_jscript` of a QR code -/
def barcode2dLine (x y : Float) (content : Text) (dotsizeMm : Float) (rotation : ℤ)
    (options : Text) : Text :=
  'B' :: ' ' :: (commas [formatG x, formatG y, decimalInt rotation, "QRCODE".toList ++ options,
    formatG dotsizeMm] ++ ';' :: content)

def handwritingLine (element : Element) : Except LabelError Text := do
  let x ← pyFloat py (element.get "x_mm") 0
  let y ← pyFloat py (element.get "y_mm") 0
  let rotation ← cabRotation py (element.get "rotation")
  let length ← pyFloat py (element.get "w_mm") 20
  let thickness ← pyFloat py (element.get "h_mm") 0.3
  return 'G' :: ' ' :: (commas [formatG x, formatG y, decimalInt rotation] ++
    ';' :: 'L' :: ':' :: commas [formatG length, formatG thickness])

/-- `str(element.get("bc_type") or _DEFAULT_BC_TYPE)` -/
def barcodeType (element : Element) : Text :=
  ((element.get "bc_type").filter Json.truthy).elim "CODE128".toList (pyStr py)

/-- `_add_element`: the line it adds, if any. -/
def addElement (context : Context) (names : List Text) (element : Element) :
    Except LabelError (Option Text) := do
  let x ← pyFloat py (element.get "x_mm") 0
  let y ← pyFloat py (element.get "y_mm") 0
  let rotation ← cabRotation py (element.get "rotation")
  if element.kind = some qrKind then
    let dotsize ← pyFloat py (element.get "dotsize_mm") 0.5
    return some (barcode2dLine x y (qrPayload py element context) dotsize rotation
      (ecOptions py (element.get "ec")))
  else if element.kind = some textKind then
    let content := resolveText py element context
    if content = [] then return none
    else
      let sizePt ← pyInt py (element.get "size_pt") 8
      let turned ← pyInt py (element.get "rotation") 0
      let anchor ← textBaselineAnchor x y sizePt turned
      let font ← fontNumber py (element.get "font") names
      return some (textLine anchor.1 anchor.2 content font sizePt rotation)
  else if element.kind = some barcode1dKind then
    let content := resolveText py element context
    if content = [] then return none
    else
      let height ← pyFloat py (element.get "height_mm") 8
      let ne ← pyFloat py (element.get "ne_mm") 0.4
      return some (barcode1dLine x y content (barcodeType py element) height ne rotation)
  else if element.kind = some handwritingKind then
    let line ← handwritingLine py element
    return some line
  else return none

/-- The names `_declare_fonts` numbers: those of the text elements, each where it comes first. -/
def fontNames (elements : List Element) : List Text :=
  elements.foldl (fun names element =>
    if element.kind = some textKind then
      match namedFont py (element.get "font") with
      | some name => if name ∈ names then names else names ++ [name]
      | none => names
    else names) []

def fontLine (number : ℕ) (name : Text) : Text :=
  'F' :: ' ' :: (decimal number ++ ';' :: sanitize py name)

def declareFonts (elements : List Element) : List Text :=
  (fontNames py elements).mapIdx fun i name => fontLine py (fontNumberBase + i) name

def printLine (template : Template) : Text :=
  'H' :: ' ' :: commas [decimal template.heat, decimal template.speed, template.method.str]

def sizeLine (template : Template) : Text :=
  'S' :: ' ' :: ("l1;".toList ++ commas [['0'], ['0'], formatG template.heightMm,
    formatG (template.heightMm + template.gapMm), formatG template.widthMm])

/-- The lines of `Job.to_jscript`. -/
def jobLines (template : Template) (copies : ℕ) (elements : List Text) : List Text :=
  "m m".toList :: ['J'] :: printLine template :: sizeLine template ::
    (elements ++ ['A' :: ' ' :: decimal copies])

def render (template : Template) (context : Context) (copies : ℕ) : Except LabelError Text := do
  Outcome.check (1 ≤ copies) (.render "copies must be >= 1")
  let added ← template.elements.mapM
    (addElement py context (fontNames py template.elements))
  return PlainText.unlines (jobLines template copies
    (declareFonts py template.elements ++ added.filterMap id))

end Values

end StockManager.Labels
