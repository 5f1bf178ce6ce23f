import Mathlib.Data.String.Basic
import StockManager.Model.Texts

/-! # The spec schema's tables (domain/parts/spec_key.py, spec_schema_tables.py,
spec_schema_tables_more.py, provider_fields.py) -/

namespace StockManager.Specs

/-- The transforms of `spec_extract.EXTRACTORS` -/
inductive Extractor
  | metric | dimensionFirst | dimensionLast | aecQualification
  deriving DecidableEq

structure SpecKey where
  key : String
  unit : Option String
  digikeyAliases : List String
  mouserAliases : List String
  extract : Option Extractor
  deriving DecidableEq

def extraCommonSpecs : List SpecKey :=
  [⟨"height", some "m", ["Height - Seated (Max)", "Height (Max)"], ["Height"], some .metric⟩,
    ⟨"length", some "m", ["Size / Dimension"], ["Length"], some .dimensionFirst⟩,
    ⟨"width", some "m", ["Size / Dimension"], ["Width"], some .dimensionLast⟩,
    ⟨"pin_count", none, ["Number of Pins"], ["Number of Pins"], none⟩,
    ⟨"pin_pitch", some "m", ["Pitch", "Lead Spacing", "Pin Pitch"],
      ["Pitch", "Pin Pitch"], some .metric⟩,
    ⟨"automotive", none, ["Ratings", "Features"],
      ["Qualification", "Features"], some .aecQualification⟩,
    ⟨"device_marking", none, ["Part Marking", "Marking"], ["Marking"], none⟩]

def ic : List SpecKey :=
  [⟨"ic_type", none, ["Type", "Function"], ["Product", "Type"], none⟩,
    ⟨"supply_voltage", some "V", ["Voltage - Supply", "Voltage - Supply (Vcc/Vdd)"],
      ["Supply Voltage", "Operating Supply Voltage"], none⟩,
    ⟨"channels", none, ["Number of Channels"], ["Number of Channels"], none⟩,
    ⟨"f_max", some "Hz", ["Speed", "Frequency", "Clock Frequency"],
      ["Maximum Frequency", "Speed"], none⟩,
    ⟨"interface", none, ["Interface"], ["Interface Type"], none⟩]

def connector : List SpecKey :=
  [⟨"connector_type", none, ["Connector Type"], ["Product Type"], none⟩,
    ⟨"positions", none, ["Number of Positions"],
      ["Number of Positions", "Number of Contacts"], none⟩,
    ⟨"rows", none, ["Number of Rows"], ["Number of Rows"], none⟩,
    ⟨"pitch", some "m", ["Pitch", "Lead Spacing", "Pin Pitch"],
      ["Pitch", "Pin Pitch"], some .metric⟩,
    ⟨"gender", none, ["Gender"], ["Gender"], none⟩,
    ⟨"current_rating", some "A", ["Current Rating (Amps)"], ["Current Rating"], none⟩,
    ⟨"voltage_rating", some "V", ["Voltage Rating"], ["Voltage Rating"], none⟩,
    ⟨"orientation", none, ["Orientation"], ["Orientation"], none⟩]

def crystal : List SpecKey :=
  [⟨"frequency", some "Hz", ["Frequency"], ["Frequency"], none⟩,
    ⟨"load_capacitance", some "F", ["Load Capacitance"], ["Load Capacitance"], none⟩,
    ⟨"frequency_tolerance", some "ppm", ["Frequency Tolerance"], ["Frequency Tolerance"], none⟩,
    ⟨"frequency_stability", some "ppm", ["Frequency Stability"], ["Frequency Stability"], none⟩,
    ⟨"supply_voltage", some "V", ["Voltage - Supply"], ["Supply Voltage"], none⟩,
    ⟨"crystal_type", none, ["Type"], ["Type"], none⟩]

def fuse : List SpecKey :=
  [⟨"current_rating", some "A", ["Current Rating (Amps)"], ["Current Rating"], none⟩,
    ⟨"voltage_rating", some "V", ["Voltage Rating - AC", "Voltage Rating - DC"],
      ["Voltage Rating AC", "Voltage Rating DC"], none⟩,
    ⟨"fuse_type", none, ["Fuse Type"], ["Fuse Type"], none⟩,
    ⟨"response_time", none, ["Response Time"], ["Response Time"], none⟩,
    ⟨"hold_current", some "A", ["Current - Hold (Ih) (Max)"], ["Hold Current"], none⟩,
    ⟨"trip_current", some "A", ["Current - Trip (It)"], ["Trip Current"], none⟩]

def switch : List SpecKey :=
  [⟨"switch_type", none, ["Switch Function"], ["Switch Type"], none⟩,
    ⟨"contact_config", none, ["Circuit"], ["Contact Form"], none⟩,
    ⟨"current_rating", some "A", ["Contact Rating @ Voltage"], ["Current Rating"], none⟩,
    ⟨"voltage_rating", some "V", [], ["Voltage Rating"], none⟩,
    ⟨"operating_force", some "N", ["Operating Force"], ["Actuation Force"], none⟩,
    ⟨"electrical_life", some "cycles", [], ["Electrical Life"], none⟩]

def transformer : List SpecKey :=
  [⟨"transformer_type", none, ["Type"], ["Product Type"], none⟩,
    ⟨"power_rating", some "VA", ["Power - Rated"], ["Power Rating"], none⟩,
    ⟨"turns_ratio", none, ["Turns Ratio"], ["Turns Ratio"], none⟩,
    ⟨"isolation_voltage", some "V", ["Isolation Voltage"], ["Isolation Voltage"], none⟩,
    ⟨"primary_inductance", some "H", ["Primary Inductance"], ["Primary Inductance"], none⟩]

def mechanical : List SpecKey :=
  [⟨"subtype", none, ["Type"], ["Product Type"], none⟩]

def baseCommonSpecs : List SpecKey :=
  [⟨"package", none, ["Package / Case", "Supplier Device Package", "Package"],
     ["Package", "Package / Case", "Case", "Case Code"], none⟩,
    ⟨"mounting", none, ["Mounting Type"], ["Mounting Style", "Mounting Type"], none⟩,
    ⟨"operating_temp", some "°C", ["Operating Temperature", "Operating Temperature - Junction"],
      ["Operating Temperature", "Operating Temperature Range"], none⟩]

def resistor : List SpecKey :=
  [⟨"resistance", some "Ω", ["Resistance"], ["Resistance"], none⟩,
    ⟨"tolerance", some "%", ["Tolerance"], ["Tolerance"], none⟩,
    ⟨"power", some "W", ["Power (Watts)"], ["Power", "Power Rating"], none⟩,
    ⟨"temp_coefficient", some "ppm/°C", ["Temperature Coefficient"],
      ["Temperature Coefficient"], none⟩,
    ⟨"technology", none, ["Composition"], ["Technology", "Resistor Type", "Composition"], none⟩]

def capacitance : SpecKey :=
  ⟨"capacitance", some "F", ["Capacitance"], ["Capacitance"], none⟩

def capVoltage : SpecKey :=
  ⟨"voltage_rating", some "V", ["Voltage - Rated"],
    ["Voltage Rating", "Voltage Rating DC", "Voltage"], none⟩

def capTolerance : SpecKey :=
  ⟨"tolerance", some "%", ["Tolerance"], ["Tolerance"], none⟩

def capacitorCeramic : List SpecKey :=
  [capacitance, capVoltage,
    ⟨"dielectric", none, ["Temperature Coefficient"],
      ["Dielectric", "Dielectric Material"], none⟩,
    capTolerance]

def capacitorElectrolytic : List SpecKey :=
  [capacitance, capVoltage,
    ⟨"esr", some "Ω", ["ESR (Equivalent Series Resistance)"], ["ESR"], none⟩,
    ⟨"ripple_current", some "A", ["Ripple Current @ Low Frequency", "Ripple Current @ High Frequency"],
      ["Ripple Current"], none⟩,
    ⟨"lifetime", none, ["Lifetime @ Temp."], ["Lifetime"], none⟩]

def capacitorTantalum : List SpecKey :=
  [capacitance, capVoltage, capTolerance,
    ⟨"esr", some "Ω", ["ESR (Equivalent Series Resistance)"], ["ESR"], none⟩]

def capacitorFilm : List SpecKey :=
  [capacitance, capVoltage, capTolerance,
    ⟨"dielectric", none, ["Dielectric Material"], ["Dielectric Material", "Dielectric"], none⟩]

def inductor : List SpecKey :=
  [⟨"inductance", some "H", ["Inductance"], ["Inductance"], none⟩,
    ⟨"current_rating", some "A", ["Current Rating (Amps)"], ["Current Rating", "Current"], none⟩,
    ⟨"saturation_current", some "A", ["Current - Saturation"], ["Saturation Current"], none⟩,
    ⟨"dcr", some "Ω", ["DC Resistance (DCR)"], ["DC Resistance", "DCR"], none⟩]

def diode : List SpecKey :=
  [⟨"diode_type", none, ["Diode Type"], ["Diode Type", "Configuration"], none⟩,
    ⟨"vrrm", some "V", ["Voltage - DC Reverse (Vr) (Max)"], ["Reverse Voltage", "Voltage"], none⟩,
    ⟨"if_avg", some "A", ["Current - Average Rectified (Io)"],
      ["Forward Current", "Current"], none⟩,
    ⟨"vf", some "V", ["Voltage - Forward (Vf) (Max) @ If"], ["Forward Voltage"], none⟩]

def diodeZener : List SpecKey :=
  [⟨"vz", some "V", ["Voltage - Zener (Nom) (Vz)"], ["Zener Voltage", "Voltage"], none⟩,
    ⟨"power", some "W", ["Power - Max"], ["Power", "Power Dissipation"], none⟩]

def diodeTvs : List SpecKey :=
  [⟨"v_reverse_standoff", some "V", ["Voltage - Reverse Standoff (Typ)"],
     ["Reverse Standoff Voltage"], none⟩,
    ⟨"v_clamping", some "V", ["Voltage - Clamping (Max) @ Ipp"], ["Clamping Voltage"], none⟩,
    ⟨"power_peak_pulse", some "W", ["Power - Peak Pulse"], ["Peak Pulse Power"], none⟩,
    ⟨"unidirectional", none, ["Unidirectional Channels"], ["Polarity"], none⟩]

def led : List SpecKey :=
  [⟨"color", none, ["Color"], ["Color", "LED Color"], none⟩,
    ⟨"vf", some "V", ["Voltage - Forward (Vf) (Typ)"], ["Forward Voltage"], none⟩,
    ⟨"wavelength", some "m", ["Wavelength - Dominant", "Wavelength - Peak"],
      ["Wavelength"], none⟩,
    ⟨"luminous_intensity", some "cd", ["Millicandela Rating"], ["Luminous Intensity"], none⟩]

def transistorBjt : List SpecKey :=
  [⟨"transistor_type", none, ["Transistor Type"], ["Transistor Type", "Polarity"], none⟩,
    ⟨"vceo", some "V", ["Voltage - Collector Emitter Breakdown (Max)"],
      ["Collector-Emitter Voltage"], none⟩,
    ⟨"ic_max", some "A", ["Current - Collector (Ic) (Max)"],
      ["Collector Current", "Continuous Collector Current"], none⟩,
    ⟨"power", some "W", ["Power - Max"], ["Power Dissipation", "Power"], none⟩,
    ⟨"hfe", none, ["DC Current Gain (hFE) @ Ic, Vce"],
      ["DC Current Gain hFE", "Current Gain"], none⟩]

def transistorMosfet : List SpecKey :=
  [⟨"fet_type", none, ["FET Type"], ["Transistor Polarity", "FET Type"], none⟩,
    ⟨"vds", some "V", ["Drain to Source Voltage (Vdss)"], ["Drain-Source Voltage"], none⟩,
    ⟨"id_max", some "A", ["Current - Continuous Drain (Id) @ 25°C"],
      ["Drain Current", "Continuous Drain Current"], none⟩,
    ⟨"rds_on", some "Ω", ["Rds On (Max) @ Id, Vgs"],
      ["Rds On Resistance", "Drain-Source Resistance"], none⟩,
    ⟨"vgs_th", some "V", ["Vgs(th) (Max) @ Id"], ["Gate Threshold Voltage"], none⟩]

def commonSpecs : List SpecKey := baseCommonSpecs ++ extraCommonSpecs

def canonicalSpecs : List (String × List SpecKey) :=
  [("common", commonSpecs), ("resistor", resistor), ("capacitor_ceramic", capacitorCeramic),
    ("capacitor_electrolytic", capacitorElectrolytic), ("capacitor_tantalum", capacitorTantalum),
    ("capacitor_film", capacitorFilm), ("inductor", inductor), ("diode", diode),
    ("diode_schottky", diode), ("diode_zener", diodeZener), ("diode_tvs", diodeTvs), ("led", led),
    ("transistor_bjt", transistorBjt), ("transistor_mosfet", transistorMosfet), ("ic", ic),
    ("connector", connector), ("crystal", crystal), ("fuse", fuse), ("switch", switch),
    ("transformer", transformer), ("mechanical", mechanical)]

def commonOverrides : List (String × List String) := [("connector", ["pin_pitch"])]

def verbatimIfUnextracted : List String := ["Features"]

def providerReservedCustomFieldKeys : List String := ["image_url", "datasheet_url", "source_url"]

def catalogLiteralKeys : List String :=
  ["Alternate packagings", "Availability", "Backorder allowed", "Detailed description",
    "DigiKey P/N", "Discontinued", "End of life", "In stock (qty)", "LCSC", "Lead time", "Lifecycle",
    "Marketplace", "MOQ", "Max order qty", "Mouser P/N", "On order (qty)", "Order multiple",
    "Packaging", "REACH", "RoHS", "Series", "Standard Pack Qty"]

/-- The alternatives of the first of `DROP_KEY_PATTERNS` -/
def droppedKeys : List String :=
  ["TARIC", "CNHTS", "BRHTS", "USHTS", "JPHTS", "KRHTS", "MXHTS", "CAHTS", "HTS code", "ECCN",
    "Conflict Minerals", "MSL", "NCNR", "IPC code", "Base Product Number", "Number of Terminations",
    "Restriction", "Suggested replacement", "Unit weight"]

def junkValues : List String := ["", "-", "–", "—", "n/a", "na", "none", "null"]

end StockManager.Specs

/-! ## Specs mined from a Mouser description (domain/parts/providers/mouser.py) -/

namespace StockManager.Specs

/-- What Python's `str` and `re` read off the Unicode tables -/
structure CharTables where
  /-- `\d` -/
  isDecimal : Char → Bool
  /-- `\w` -/
  isWord : Char → Bool
  upper : String → String

/-- A character under `re.IGNORECASE`, as far as the patterns name its letters -/
def foldCase (c : Char) : Char :=
  if c = 'ſ' then 's'
  else if c = '\u212a' then 'k'
  else if c = 'İ' ∨ c = 'ı' then 'i'
  else if c = 'Ω' ∨ c = '\u2126' then 'ω'
  else if c = '\u039c' then 'μ'
  else c.toLower

def foldText (text : String) : String := String.ofList (text.toList.map foldCase)

/-! ### `_TOKEN_PATTERNS` -/

/-- `^±?\s*\d+(?:[separators]\d+)?\s*[prefixes]?\s*(?:units)$`, the sign and the second gap only
where the pattern has them. -/
structure TokenPattern where
  signed : Bool
  separators : List Char
  prefixes : List Char
  gap : Bool
  units : List String
  ignoreCase : Bool
  label : String

def dropSign (rest : List Char) : List Char :=
  (if rest.head? = some '±' then rest.tail else rest).dropWhile isSpace

/-- `(?:[separators]\d+)?` -/
def dropFraction (py : CharTables) (separators : List Char) : List Char → List Char
  | separator :: digit :: rest =>
    if separator ∈ separators ∧ py.isDecimal digit then rest.dropWhile py.isDecimal
    else separator :: digit :: rest
  | rest => rest

/-- `[prefixes]?\s*(?:units)$` -/
def TokenPattern.unitMatches (pattern : TokenPattern) (rest : List Char) : Bool :=
  String.ofList rest ∈ pattern.units ∨
    (rest.head?.any (· ∈ pattern.prefixes) ∧
      String.ofList (if pattern.gap then rest.tail.dropWhile isSpace else rest.tail) ∈ pattern.units)

/-- `pattern.match(token)` -/
def TokenPattern.matches (py : CharTables) (pattern : TokenPattern) (token : String) : Bool :=
  let text := if pattern.ignoreCase then token.toList.map foldCase else token.toList
  let number := if pattern.signed then dropSign text else text
  number.head?.any py.isDecimal ∧
    pattern.unitMatches
      ((dropFraction py pattern.separators (number.dropWhile py.isDecimal)).dropWhile isSpace)

def tokenPatterns : List TokenPattern :=
  [⟨false, ['.'], ['k', 'm', 'u', 'µ', 'μ', 'n', 'p'], true, ["ohm", "ohms", "ω"], true, "Resistance"⟩,
    ⟨false, ['.'], ['p', 'P', 'n', 'N', 'u', 'µ', 'μ', 'm', 'M'], false, ["F"], false, "Capacitance"⟩,
    ⟨false, ['.'], ['p', 'P', 'n', 'N', 'u', 'µ', 'μ', 'm', 'M'], false, ["H"], false, "Inductance"⟩,
    ⟨false, ['.'], [], false, ["v", "vdc", "vac"], true, "Voltage"⟩,
    ⟨false, ['.'], ['m', 'M', 'u', 'µ', 'μ'], false, ["A"], false, "Current"⟩,
    ⟨false, ['/', '.'], ['m', 'M', 'k', 'K'], false, ["W"], false, "Power"⟩,
    ⟨false, ['.'], ['k', 'K', 'm', 'M', 'g', 'G'], false, ["Hz"], false, "Frequency"⟩,
    ⟨true, ['.'], [], false, ["%"], false, "Tolerance"⟩]

/-! ### `_PACKAGE_RE` -/

/-- The letters of the alternatives and whether a second number may follow -/
def packageNames : List (String × Bool) :=
  [("soic", false), ("sop", false), ("tssop", false), ("ssop", false), ("qfn", false),
    ("tqfp", false), ("lqfp", false), ("sot", true), ("dip", false), ("bga", false)]

/-- `\b` between two characters -/
def isBoundary (py : CharTables) (before after : Option Char) : Bool :=
  before.any py.isWord ≠ after.any py.isWord

/-- `NAME[- ]?\d+(?:-\d+)?`: the lengths it can match, the longest first -/
def namedLengths (py : CharTables) (text : List Char) (name : String × Bool) : List ℕ :=
  let letters := name.1.toList.length
  if (text.take letters).map foldCase = name.1.toList then
    let rest := text.drop letters
    let gap := if rest.head? = some '-' ∨ rest.head? = some ' ' then 1 else 0
    let digits := ((rest.drop gap).takeWhile py.isDecimal).length
    let second := rest.drop (gap + digits)
    let more := (second.tail.takeWhile py.isDecimal).length
    if digits = 0 then []
    else if name.2 = true ∧ second.head? = some '-' ∧ 0 < more then
      [letters + gap + digits + 1 + more, letters + gap + digits]
    else [letters + gap + digits]
  else []

def packageLengths (py : CharTables) (text : List Char) : List ℕ :=
  (if 4 ≤ text.length ∧ (text.take 4).all py.isDecimal then [4] else []) ++
    packageNames.flatMap (namedLengths py text)

/-- `_PACKAGE_RE.search`, from a place with the character before it -/
def searchPackage (py : CharTables) : Option Char → List Char → Option String
  | _, [] => none
  | before, c :: rest =>
    let found := if isBoundary py before (some c) then
        (packageLengths py (c :: rest)).find? fun length =>
          isBoundary py ((c :: rest).take length).getLast? ((c :: rest).drop length).head?
      else none
    match found with
    | some length => some (String.ofList ((c :: rest).take length))
    | none => searchPackage py (some c) rest

/-! ### `parse_description_specs` -/

/-- `description.split(" - ", 1)[-1]`: `none` when there is no separator -/
def afterSeparator : List Char → Option (List Char)
  | [] => none
  | c :: rest => if [' ', '-', ' '] <+: c :: rest then some (rest.drop 2) else afterSeparator rest

def descriptionTokens (description : String) : List String :=
  let body := (afterSeparator description.toList).getD description.toList
  ((body.splitOnP fun c => c = ',' ∨ c = ';').map fun token => strip (String.ofList token)).filter
    (· ≠ "")

def minePackage (py : CharTables) (out : List (String × String)) (token : String) :
    List (String × String) :=
  match searchPackage py none token.toList with
  | some code =>
    if "Package" ∈ out.map Prod.fst then out
    else out ++ [("Package", (py.upper code).replace " " "-")]
  | none => out

def mineLabel (py : CharTables) (out : List (String × String)) (token : String) :
    List (String × String) :=
  match tokenPatterns.find? fun pattern =>
      pattern.label ∉ out.map Prod.fst ∧ pattern.matches py token with
  | some pattern => out ++ [(pattern.label, token)]
  | none => out

def parseDescriptionSpecs (py : CharTables) (description : String) : List (String × String) :=
  (descriptionTokens description).foldl (fun out token => mineLabel py (minePackage py out token) token) []

end StockManager.Specs

/-! ## Normalising a provider's specs (domain/parts/spec_schema.py) -/

namespace StockManager.Specs

/-- `Decimal` values are rational numbers here. -/
structure ParsedValue where
  valueNum : Option ℚ
  unit : String
  display : String
  deriving DecidableEq

/-- `extract_for` and `parse_si`, which read one value -/
structure Readers where
  extractFor : Extractor → String → Option String
  parseSi : String → Option String → Option ParsedValue

structure SpecValue where
  key : String
  display : String
  valueNum : Option ℚ
  unit : Option String
  rawKey : String
  rawValue : String
  deriving DecidableEq

structure NormalisedSpecs where
  canonical : List (String × SpecValue)
  optional : List (String × String)
  catalog : List (String × String)
  dropped : List String

/-! ### Keys and values -/

/-- `^[A-Z]{2}HTS$` -/
def isHtsKey (key : List Char) : Bool :=
  key.length = 5 ∧ (key.take 2).all Char.isUpper ∧ key.drop 2 = ['H', 'T', 'S']

def isJunkKey (key : String) : Bool :=
  strip key ≠ "" ∧ (foldText (strip key) ∈ droppedKeys.map foldText ∨ isHtsKey (strip key).toList)

/-- `str.lower()`; no character outside ASCII becomes a letter of `JUNK_VALUES`. -/
def isJunkValue (value : String) : Bool :=
  String.ofList ((strip value).toList.map Char.toLower) ∈ junkValues

/-- `^Unit price \(\d+\+\)$` -/
def isUnitPriceKey (py : CharTables) (key : List Char) : Bool :=
  let head := "Unit price (".toList
  let rest := (key.drop head.length).dropWhile py.isDecimal
  head <+: key ∧ (key.drop head.length).head?.any py.isDecimal ∧ rest = ['+', ')']

def isCatalogKey (py : CharTables) (key : String) : Bool :=
  strip key ∈ catalogLiteralKeys ∨ isUnitPriceKey py (strip key).toList

def specKeysFor (categorySlug : Option String) : List SpecKey :=
  if categorySlug.getD "" = "" ∨ categorySlug = some "common" then commonSpecs
  else
    let overridden := (Dict.find (categorySlug.getD "") commonOverrides).getD []
    commonSpecs.filter (fun spec => spec.key ∉ overridden) ++
      (Dict.find (categorySlug.getD "") canonicalSpecs).getD []

def aliasesFor (provider : String) (spec : SpecKey) : List String :=
  if provider = "mouser" then spec.mouserAliases else spec.digikeyAliases

/-! ### `_partition` -/

/-- `kept` and `order` -/
structure Partitioned where
  kept : List (String × String)
  order : List String

def partitionPair (parts : Partitioned) (pair : String × String) : Partitioned :=
  let key := strip pair.1
  if key = "" then parts
  else
    let order := if key ∈ parts.order then parts.order else parts.order ++ [key]
    if key ∈ Dict.keys parts.kept ∨ isJunkKey key = true then { parts with order := order }
    else if isJunkValue (strip pair.2) = true then { parts with order := order }
    else ⟨Dict.put key (strip pair.2) parts.kept, order⟩

def partitioned (rawSpecs : List (String × String)) : Partitioned :=
  rawSpecs.foldl partitionPair ⟨[], []⟩

/-- The keepable pairs -/
def keptPairs (rawSpecs : List (String × String)) : List (String × String) :=
  let parts := partitioned rawSpecs
  parts.order.filterMap fun key => (Dict.find key parts.kept).map fun value => (key, value)

/-- The refused keys -/
def refusedKeys (rawSpecs : List (String × String)) : List String :=
  let parts := partitioned rawSpecs
  parts.order.filter fun key => key ∉ Dict.keys parts.kept

/-! ### `_resolve_canonical` -/

def toSpecValue (readers : Readers) (spec : SpecKey) (rawKey rawValue : String) : Option SpecValue :=
  let extracted := match spec.extract with
    | none => some rawValue
    | some name => readers.extractFor name rawValue
  extracted.map fun text =>
    match spec.unit with
    | none => ⟨spec.key, text, none, none, rawKey, rawValue⟩
    | some unit =>
      match readers.parseSi text (some unit) with
      | none => ⟨spec.key, text, none, some unit, rawKey, rawValue⟩
      | some parsed =>
        if parsed.unit = unit then
          ⟨spec.key, parsed.display, parsed.valueNum, some parsed.unit, rawKey, rawValue⟩
        else ⟨spec.key, text, none, some unit, rawKey, rawValue⟩

/-- `canonical` and `consumed` -/
structure Resolved where
  canonical : List (String × SpecValue)
  consumed : List String

/-- The present aliases of a spec, those of the attributes first -/
def candidates (attributes mined : String → Option String) (aliases : List String) :
    List (String × String) :=
  (aliases.filterMap fun name => (attributes name).map fun value => (name, value)) ++
    aliases.filterMap fun name => (mined name).map fun value => (name, value)

def resolveSpec (readers : Readers) (provider : String) (attributes mined : String → Option String)
    (resolved : Resolved) (spec : SpecKey) : Resolved :=
  let found := candidates attributes mined (aliasesFor provider spec)
  if found = [] then resolved
  else
    let consumed := resolved.consumed ++ found.map Prod.fst
    match found.findSome? fun pair => toSpecValue readers spec pair.1 pair.2 with
    | some value => ⟨Dict.put spec.key value resolved.canonical, consumed⟩
    | none =>
      { resolved with
        consumed := consumed.filter fun name =>
          ¬ (name ∈ found.map Prod.fst ∧ name ∈ verbatimIfUnextracted) }

/-- `attributes` and `mined` are read as dictionaries. -/
def resolveCanonical (readers : Readers) (categorySlug : Option String) (provider : String)
    (attributes mined : String → Option String) : Resolved :=
  (specKeysFor categorySlug).foldl (resolveSpec readers provider attributes mined) ⟨[], []⟩

/-! ### `normalise` -/

/-- What is mined from the description, for Mouser only -/
def minedSpecs (py : CharTables) (provider : String) (description : Option String) :
    List (String × String) :=
  if provider = "mouser" ∧ description.getD "" ≠ "" then parseDescriptionSpecs py (description.getD "")
  else []

def normalise (py : CharTables) (readers : Readers) (categorySlug : Option String) (provider : String)
    (rawSpecs : List (String × String)) (description : Option String) : NormalisedSpecs :=
  let attributes := keptPairs rawSpecs
  let unknown := fun key => key ∉ attributes.map Prod.fst
  let fromDescription := minedSpecs py provider description
  let mined := (keptPairs fromDescription).filter fun pair => unknown pair.1
  let resolved := resolveCanonical readers categorySlug provider
    (fun key => Dict.find key attributes) (fun key => Dict.find key mined)
  let winners := resolved.canonical.map fun item => item.2.rawKey
  let pairs := attributes ++ mined
  let superseded := (pairs.map Prod.fst).filter fun key => key ∈ resolved.consumed ∧ key ∉ winners
  let rest := pairs.filter fun pair => pair.1 ∉ resolved.consumed
  let isCatalog := fun key => key ∈ providerReservedCustomFieldKeys ∨ isCatalogKey py key = true
  { canonical := resolved.canonical
    optional := (rest.filter fun pair => ¬ isCatalog pair.1).foldl (fun d p => Dict.put p.1 p.2 d) []
    catalog := (rest.filter fun pair => isCatalog pair.1).foldl (fun d p => Dict.put p.1 p.2 d) []
    dropped := refusedKeys rawSpecs ++ (refusedKeys fromDescription).filter unknown ++ superseded }

end StockManager.Specs
