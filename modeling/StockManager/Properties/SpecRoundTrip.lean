import StockManager.Effects.ExtractedTexts
import StockManager.Effects.SpecEnds

/-! # A number that is shown exactly is read back

Except for teraamperes: the patterns of the qualifiers read `TA` as the ambient temperature. -/

namespace StockManager.Specs

variable {py : ValueTables} {v : ℚ} {unit : Text}

/-- What the column holds -/
def Admitted (v : ℚ) : Prop := v = 0 ∨ 1 / 10 ^ 18 ≤ |v| ∧ |v| < 10 ^ 18

/-- The engineering mantissa, or the number itself where the unit is not scaled -/
def mantissaOf (v : ℚ) (unit : Text) : ℚ :=
  if isScalable unit = true ∧ v ≠ 0 then v * 10 ^ (-clampExponent (adjusted v)) else v

/-- At most four decimal places -/
def FourPlaces (q : ℚ) : Prop := ∃ k : ℤ, q * 10 ^ 4 = k

theorem FourPlaces.exists_int {q : ℚ} (h : FourPlaces q) :
    ∃ k : ℤ, q = k * 10 ^ (-4 : ℤ) ∧ |(k : ℚ)| = |q| * 10 ^ 4 ∧ tenThousandths q = k.natAbs := by
  obtain ⟨k, hk⟩ := h
  have habs : |(k : ℚ)| = |q| * 10 ^ 4 := by
    rw [← hk, abs_mul, abs_of_pos (by norm_num : (0 : ℚ) < 10 ^ 4)]
  refine ⟨k, ?_, habs, tenThousandths_eq ?_⟩
  · rw [← hk, mul_assoc, zpow_neg]
    norm_num
  · rw [Nat.cast_natAbs, Int.cast_abs, habs]

theorem FourPlaces.signed_tenThousandths {q : ℚ} (h : FourPlaces q) :
    signed (q < 0) ((tenThousandths q : ℚ) / 10 ^ 4) = q := by
  obtain ⟨k, -, habs, hcount⟩ := h.exists_int
  rw [hcount, Nat.cast_natAbs, Int.cast_abs, habs, mul_div_assoc, div_self (by norm_num), mul_one, signed]
  split
  next hneg => rw [abs_of_neg (of_decide_eq_true hneg), neg_neg]
  next hneg => exact abs_of_nonneg (not_lt.mp fun hlt => hneg (decide_eq_true hlt))

theorem Admitted.lt (h : Admitted v) : |v| < 10 ^ 18 := by
  rcases h with rfl | h
  · norm_num
  · exact h.2

theorem engineering_of_fourPlaces (hv : v ≠ 0) (h : FourPlaces (v * 10 ^ (-clampExponent (adjusted v))))
    (hlt : |v| < 10 ^ 18) :
    engineering v = (v * 10 ^ (-clampExponent (adjusted v)), clampExponent (adjusted v)) := by
  obtain ⟨-, -, -, -, htop⟩ := clampExponent_cases (adjusted v)
  have hadjusted : adjusted v < 18 := by
    rw [← adjusted_lt hv]
    exact_mod_cast hlt
  have hten : (0 : ℚ) < 10 ^ (-clampExponent (adjusted v)) := zpow_pos (by norm_num) _
  have hmantissa : |v * 10 ^ (-clampExponent (adjusted v))| <
      10 ^ (adjusted v + 1 + -clampExponent (adjusted v)) := by
    rw [abs_mul_zpow, zpow_add₀ (by norm_num)]
    exact mul_lt_mul_of_pos_right (log_bounds hv).2 hten
  obtain ⟨k, hk, habs, hcount⟩ := h.exists_int
  have hscaleb : scaleb v (-clampExponent (adjusted v)) = v * 10 ^ (-clampExponent (adjusted v)) := by
    have hpow : (10 : ℚ) ^ (adjusted v + 1 + -clampExponent (adjusted v)) ≤ 10 ^ (24 : ℤ) :=
      zpow_le_zpow_right₀ (by norm_num) (by omega)
    have hlarge : |(k : ℚ)| < 10 ^ 28 := by
      rw [habs]
      have hless := hmantissa.trans_le hpow
      generalize v * 10 ^ (-clampExponent (adjusted v)) = m at hless
      norm_num at hless ⊢
      linarith
    have hbound : |k| < 10 ^ 28 := by exact_mod_cast hlarge
    rw [scaleb, hk, DecimalContext.round_eq_self hbound]
  rw [engineering, hscaleb, if_neg]
  rintro ⟨hcarry, hless⟩
  -- a mantissa of four places that is less than 1000 is at most 999.9999
  have hthousand : |v * 10 ^ (-clampExponent (adjusted v))| < 10 ^ (3 : ℤ) :=
    hmantissa.trans_le (zpow_le_zpow_right₀ (by norm_num) (by omega))
  have hsmall : |(k : ℚ)| < 1000 * 10000 := by
    rw [habs]
    generalize v * 10 ^ (-clampExponent (adjusted v)) = m at hthousand
    norm_num at hthousand ⊢
    linarith
  have hbound : |k| < 1000 * 10000 := by exact_mod_cast hsmall
  rw [hcount, ← Int.ofNat_le, Int.natCast_natAbs] at hcarry
  omega

theorem shownValue_shownOf (hv : Admitted v) (h : FourPlaces (mantissaOf v unit)) :
    shownValue (v < 0) (shownOf v (isScalable unit)).1 (shownOf v (isScalable unit)).2 = v := by
  rw [shownOf, mantissaOf] at *
  by_cases hfixed : isScalable unit = false ∨ v = 0
  · rw [if_neg (by rintro ⟨hscalable, hne⟩; simp [hscalable, hne] at hfixed)] at h
    rw [if_pos hfixed, shownValue, h.signed_tenThousandths, zpow_zero, mul_one]
  · push Not at hfixed
    have hscalable : isScalable unit = true := by simpa using hfixed.1
    rw [if_pos ⟨hscalable, hfixed.2⟩] at h
    have hten : (0 : ℚ) < 10 ^ (-clampExponent (adjusted v)) := zpow_pos (by norm_num) _
    have hneg : v < 0 ↔ v * 10 ^ (-clampExponent (adjusted v)) < 0 :=
      ⟨fun hneg => mul_neg_of_neg_of_pos hneg hten, fun hneg => neg_of_mul_neg_left hneg hten.le⟩
    rw [if_neg (not_or.mpr hfixed), engineering_of_fourPlaces hfixed.2 h hv.lt, shownValue, decide_eq_decide.mpr hneg,
      h.signed_tenThousandths, mul_assoc, ← zpow_add₀ (by norm_num), neg_add_cancel, zpow_zero, mul_one]

theorem shownOf_exponent_iff (hscalable : isScalable unit = true) (hv : Admitted v)
    (h : FourPlaces (mantissaOf v unit)) : (shownOf v (isScalable unit)).2 = 12 ↔ 10 ^ 12 ≤ |v| := by
  rw [shownOf]
  split
  next hfixed =>
    have hzero : v = 0 := by simpa [hscalable] using hfixed
    rw [hzero]
    exact iff_of_false (by decide) (by norm_num)
  next hfixed =>
    push Not at hfixed
    rw [mantissaOf, if_pos ⟨hscalable, hfixed.2⟩] at h
    rw [engineering_of_fourPlaces hfixed.2 h hv.lt, show (10 : ℚ) ^ 12 = 10 ^ (12 : ℤ) by norm_cast,
      le_adjusted hfixed.2, clampExponent]
    dsimp only
    omega

/-- Exactly teraamperes come back as another number. -/
theorem parseSi_formatSi_iff (py : ValueTables) (unit : Text) (hunit : unit ∈ unitEntries.map UnitEntry.symbol)
    (v : ℚ) (hv : Admitted v) (h : FourPlaces (mantissaOf v unit)) :
    parseText py (formatSi v unit) (some unit) = some ⟨some v, unit, formatSi v unit⟩ ↔
      ¬ (unit = ['A'] ∧ 10 ^ 12 ≤ |v|) := by
  have hexponent : (shownOf v (isScalable unit)).2 ∈ displayPrefixes.map Prod.fst :=
    (shownOf_exponent v (unitBySymbol unit)).1
  have hvalue := shownValue_shownOf hv h
  have hfit := @fitToColumn_shownValue (v < 0) (shownOf v (isScalable unit)).1 (shownOf v (isScalable unit)).2 (by
    have hall : ∀ e ∈ displayPrefixes.map Prod.fst, -12 ≤ e := by decide
    exact hall _ hexponent)
  rw [parseText, parseWith_formatSi hunit hunit hv.lt.le, readUnit]
  by_cases hta : displayPrefix (shownOf v (isScalable unit)).2 ++ unit = ['T', 'A']
  · -- the number is read as amperes
    obtain ⟨hampere, htop⟩ := (ambient_iff unit hunit _ hexponent).mp hta
    have hscalable : isScalable unit = true := by rw [hampere]; decide
    have hlarge := (shownOf_exponent_iff hscalable hv h).mp htop
    have hne : (shownOf v (isScalable unit)).1 ≠ 0 := fun hzero => by
      rw [hzero, htop] at hvalue
      rw [← hvalue, abs_shownValue] at hlarge
      norm_num at hlarge
    rw [if_pos hta, Option.bind_some, fitToColumn_shownValue (by norm_num)]
    refine iff_of_false (fun heq => ?_) (fun hnot => hnot ⟨hampere, hlarge⟩)
    split at heq
    next => exact absurd heq (by simp)
    next =>
      have hsame := (Parsed.mk.inj (Option.some.inj heq)).1
      have habs := abs_shownValue (v < 0) (shownOf v (isScalable unit)).1 0
      have habs' := abs_shownValue (v < 0) (shownOf v (isScalable unit)).1 12
      rw [htop] at hvalue
      rw [Option.some.inj hsame, zpow_zero, mul_one] at habs
      rw [hvalue, habs] at habs'
      have hpos : (0 : ℚ) < ((shownOf v (isScalable unit)).1 : ℚ) / 10 ^ 4 := by positivity
      norm_num at habs'
      linarith
  · have hnot : ¬ (unit = ['A'] ∧ 10 ^ 12 ≤ |v|) := by
      rintro ⟨hampere, hlarge⟩
      have hscalable : isScalable unit = true := by rw [hampere]; decide
      exact hta ((ambient_iff unit hunit _ hexponent).mpr
        ⟨hampere, (shownOf_exponent_iff hscalable hv h).mpr hlarge⟩)
    have hmetre : ¬ (displayPrefix (shownOf v (isScalable unit)).2 ++ unit = ['m'] ∧ unit ≠ ['m']) := fun hcond =>
      hcond.2 ((metre_iff unit hunit _ hexponent).mp hcond.1).1
    rw [hvalue, if_neg (not_le.mpr hv.lt)] at hfit
    rw [if_neg hta, if_neg hmetre, Option.bind_some]
    dsimp only
    rw [hvalue, hfit, Option.map_some]
    exact iff_of_true rfl hnot

theorem isDigit_not_space (c : Char) (h : c.isDigit) : isSpace c = false :=
  solid_not_space c ⟨mem_shownChars_of_isDigit h, fun heq => by
    rw [heq] at h
    exact absurd h (by decide)⟩

/-- Tables that know the characters of ASCII and of the units -/
def asciiTables : ValueTables where
  isDecimal := Char.isDigit
  isWord c := c.isAlphanum || c = '_' || c = 'Ω' || c = 'µ'
  upper text := text
  digitValue c := c.toNat - 48
  decimal_ascii _ _ := rfl
  digitValue_ascii _ _ := rfl
  word_ascii c h := by
    have hohm : c ≠ 'Ω' := fun heq => by rw [heq] at h; exact absurd h (by decide)
    have hmicro : c ≠ 'µ' := fun heq => by rw [heq] at h; exact absurd h (by decide)
    simp [hohm, hmicro]
  decimal_word c h := by simp [Char.isAlphanum, h]
  decimal_not_space := isDigit_not_space
  decimal_symbols := by decide
  word_symbols := by decide

theorem parseSi_formatSi_kiloohms :
    parseText asciiTables (formatSi 4700 ['Ω']) (some ['Ω']) = some ⟨some 4700, ['Ω'], formatSi 4700 ['Ω']⟩ ↔
      ¬ ((['Ω'] : Text) = ['A'] ∧ (10 : ℚ) ^ 12 ≤ |4700|) :=
  parseSi_formatSi_iff asciiTables ['Ω'] (by decide) 4700 (.inr (by norm_num)) ⟨47000, by decide +kernel⟩

/-- Five teraamperes are shown as `5 TA` and read back as five amperes. -/
theorem teraamperes_misread :
    ['A'] ∈ unitEntries.map UnitEntry.symbol ∧ Admitted (5 * 10 ^ 12) ∧
      FourPlaces (mantissaOf (5 * 10 ^ 12) ['A']) ∧ adjusted (5 * 10 ^ 12) = 12 ∧
      formatSi (5 * 10 ^ 12) ['A'] = ['5', ' ', 'T', 'A'] ∧
      parseText asciiTables (formatSi (5 * 10 ^ 12) ['A']) (some ['A']) = some ⟨some 5, ['A'], ['5', ' ', 'A']⟩ :=
  ⟨by decide, .inr (by norm_num), ⟨50000, by decide +kernel⟩, by decide +kernel, by decide +kernel,
    by decide +kernel⟩

end StockManager.Specs

/-! ## A stored value read again

The backfill of the specs reads its own displays. -/

namespace StockManager.Specs

variable {py : ValueTables} {text : Text}

def allSpecs : List SpecKey := commonSpecs ++ canonicalSpecs.flatMap fun category => category.2

theorem mem_allSpecs {slug : Option String} {spec : SpecKey} (h : spec ∈ specKeysFor slug) : spec ∈ allSpecs := by
  rw [specKeysFor] at h
  split at h
  next => exact List.mem_append_left _ h
  next =>
    rcases List.mem_append.mp h with hcommon | hown
    · exact List.mem_append_left _ (List.mem_filter.mp hcommon).1
    · cases hfind : Dict.find (slug.getD "") canonicalSpecs with
      | none => simp [hfind] at hown
      | some specs =>
        rw [hfind] at hown
        exact List.mem_append_right _ (List.mem_flatMap.mpr ⟨_, Dict.mem_of_find hfind, hown⟩)

theorem allSpecs_units : ∀ spec ∈ allSpecs, (∀ unit ∈ spec.unit, unit.toList ∈ unitEntries.map UnitEntry.symbol) ∧
    (spec.extract = some .aecQualification → spec.unit = none) := by
  decide +kernel

/-- What the extractor of a key leaves of a value -/
def extractedText (py : ValueTables) (spec : SpecKey) (raw : Text) : Option Text :=
  match spec.extract with
  | none => some raw
  | some name => extractText py name raw

def parsedAs (py : ValueTables) (unit : Option String) (text : Text) : Option Parsed :=
  unit.bind fun u => (parseText py text (some u.toList)).filter fun p => p.unit = u.toList

def shownDisplay (py : ValueTables) (unit : Option String) (text : Text) : Text :=
  ((parsedAs py unit text).map Parsed.display).getD text

theorem parseSi_eq (unit : String) (text : Text) :
    (valueReaders py).parseSi (String.ofList text) (some unit) =
      (parseText py text (some unit.toList)).map fun p => ⟨p.valueNum, String.ofList p.unit, String.ofList p.display⟩ := by
  simp [valueReaders, String.toList_ofList]

theorem toSpecValue_eq (spec : SpecKey) (rawKey raw : String) :
    toSpecValue (valueReaders py) spec rawKey raw = (extractedText py spec raw.toList).map fun text =>
      ⟨spec.key, String.ofList (shownDisplay py spec.unit text), (parsedAs py spec.unit text).bind Parsed.valueNum,
        spec.unit, rawKey, raw⟩ := by
  have hextracted (name : Extractor) :
      (valueReaders py).extractFor name raw = (extractText py name raw.toList).map String.ofList := rfl
  obtain ⟨text, htext⟩ : ∃ text, raw = String.ofList text := ⟨raw.toList, String.ofList_toList.symm⟩
  rw [toSpecValue, extractedText]
  have hunit (u : String) (p : Parsed) : String.ofList p.unit = u ↔ p.unit = u.toList :=
    ⟨fun h => by rw [← h, String.toList_ofList], fun h => by rw [h, String.ofList_toList]⟩
  cases spec.extract with
  | none =>
    cases hu : spec.unit with
    | none => simp [shownDisplay, parsedAs]
    | some u =>
      simp only [shownDisplay, parsedAs, Option.map_some, Option.bind_some, htext, parseSi_eq, String.toList_ofList]
      cases parseText py text (some u.toList) with
      | none => rfl
      | some p => by_cases h : p.unit = u.toList <;> simp [h, hunit, Option.filter]
  | some name =>
    dsimp only
    rw [hextracted, Option.map_map]
    refine Option.map_congr fun text _ => ?_
    cases hu : spec.unit with
    | none => simp [shownDisplay, parsedAs]
    | some u =>
      simp only [shownDisplay, parsedAs, Option.bind_some, Function.comp, parseSi_eq]
      cases parseText py text (some u.toList) with
      | none => rfl
      | some p => by_cases h : p.unit = u.toList <;> simp [h, hunit, Option.filter]

/-- The numbers that a value with a unit is read as are settled. -/
def RereadsSame (py : ValueTables) (categorySlug : Option String) (key raw : String) : Prop :=
  ∀ spec ∈ (specKeysFor categorySlug).find? fun spec => spec.key = key, ∀ unit ∈ spec.unit,
    ∀ text ∈ extractedText py spec raw.toList,
      (∃ e ∈ (readEnds py (text.length + 1) text (some unit.toList)).head?, e.2 = unit.toList) →
        Settled unit.toList (readEnds py (text.length + 1) text (some unit.toList))

theorem parsedAs_eq {unit : String} (hunit : unit.toList ∈ unitEntries.map UnitEntry.symbol) (text : Text) :
    parsedAs py (some unit) text =
      (assemble (readEnds py (text.length + 1) text (some unit.toList))).filter fun p => p.unit = unit.toList := by
  rw [parsedAs, Option.bind_some, parseText, (parseWith_eq hunit _ text).1]

theorem extractedText_shownDisplay {spec : SpecKey} (hspec : spec ∈ allSpecs) {raw : Text}
    (h : extractedText py spec raw = some text) :
    extractedText py spec (shownDisplay py spec.unit text) = some (shownDisplay py spec.unit text) := by
  have hsame : extractedText py spec text = some text := by
    rw [extractedText] at h ⊢
    cases hname : spec.extract with
    | none => rfl
    | some name =>
      rw [hname] at h
      exact extractText_idempotent name h
  rw [shownDisplay]
  cases hparsed : parsedAs py spec.unit text with
  | none => exact hsame
  | some p =>
    obtain ⟨hunits, hgrade⟩ := allSpecs_units spec hspec
    cases hunit : spec.unit with
    | none =>
      rw [hunit] at hparsed
      exact absurd hparsed (by simp [parsedAs])
    | some unit =>
      rw [hunit, parsedAs_eq (hunits unit hunit)] at hparsed
      have hread := (@parseWith_eq py unit.toList (hunits unit hunit) (text.length + 1) text).2
      obtain ⟨e, he, rfl⟩ := Option.map_eq_some_iff.mp (Option.filter_eq_some_iff.mp hparsed).1
      have hjoined := joined_showEnds (List.ne_nil_of_mem (List.mem_of_mem_head? he)) hread
      rw [Option.map_some, Option.getD_some, extractedText]
      cases hname : spec.extract with
      | none => rfl
      | some name =>
        refine extractText_joined (fun heq => ?_) hjoined
        rw [hgrade (hname.trans (congrArg some heq))] at hunit
        exact absurd hunit (by simp)

theorem shownDisplay_stays_iff {unit : String} (hunit : unit.toList ∈ unitEntries.map UnitEntry.symbol) (text : Text) :
    shownDisplay py (some unit) (shownDisplay py (some unit) text) = shownDisplay py (some unit) text ↔
      ((∃ e ∈ (readEnds py (text.length + 1) text (some unit.toList)).head?, e.2 = unit.toList) →
        Settled unit.toList (readEnds py (text.length + 1) text (some unit.toList))) := by
  have hread := (@parseWith_eq py unit.toList hunit (text.length + 1) text).2
  have hparsed := @parsedAs_eq py unit hunit text
  cases hfirst : (readEnds py (text.length + 1) text (some unit.toList)).head? with
  | none =>
    have hnone : shownDisplay py (some unit) text = text := by
      rw [shownDisplay, hparsed, assemble, hfirst]
      rfl
    rw [hnone, hnone]
    exact iff_of_true rfl (by simp)
  | some e =>
    by_cases he : e.2 = unit.toList
    · have hshown : shownDisplay py (some unit) text =
          showEnds (readEnds py (text.length + 1) text (some unit.toList)) := by
        rw [shownDisplay, hparsed, assemble, hfirst]
        simp [he, Option.filter]
      have hne := List.ne_nil_of_mem (List.mem_of_mem_head? hfirst)
      have hall : ∀ d ∈ (readEnds py (text.length + 1) text (some unit.toList)).head?, d.2 = unit.toList := by
        rw [hfirst]
        rintro d ⟨⟩
        exact he
      have hreread := @reread_iff py _ _ hunit hne hread hall
      rw [forall_prop_of_true ⟨e, rfl, he⟩, ← hreread, hshown, shownDisplay, parsedAs, Option.bind_some]
      cases parseText py (showEnds (readEnds py (text.length + 1) text (some unit.toList))) (some unit.toList) with
      | none => simp
      | some p => by_cases hp : p.unit = unit.toList <;> simp [hp, Option.filter]
    · have hnone : shownDisplay py (some unit) text = text := by
        rw [shownDisplay, hparsed, assemble, hfirst]
        simp [he, Option.filter]
      rw [hnone, hnone]
      refine iff_of_true rfl fun hheld => ?_
      obtain ⟨d, hd, hunit'⟩ := hheld
      exact absurd (Option.some.inj hd ▸ hunit') he

/-- A stored display is stored again as it is, exactly where the numbers it shows are settled. -/
theorem canonicalValue_stays_iff (py : ValueTables) (categorySlug : Option String) (key raw : String) (value : SpecValue)
    (h : canonicalValue (valueReaders py) categorySlug key raw = some value) :
    (∃ again, canonicalValue (valueReaders py) categorySlug key value.display = some again ∧
        again.display = value.display ∧ again.unit = value.unit) ↔ RereadsSame py categorySlug key raw := by
  obtain ⟨spec, hfind, hvalue⟩ := Option.bind_eq_some_iff.mp h
  have hspec : spec ∈ allSpecs := mem_allSpecs (List.mem_of_find?_eq_some hfind)
  rw [toSpecValue_eq] at hvalue
  obtain ⟨text, htext, rfl⟩ := Option.map_eq_some_iff.mp hvalue
  have hagain : canonicalValue (valueReaders py) categorySlug key (String.ofList (shownDisplay py spec.unit text)) =
      some ⟨spec.key, String.ofList (shownDisplay py spec.unit (shownDisplay py spec.unit text)),
        (parsedAs py spec.unit (shownDisplay py spec.unit text)).bind Parsed.valueNum, spec.unit, key,
        String.ofList (shownDisplay py spec.unit text)⟩ := by
    rw [canonicalValue, hfind, Option.bind_some, toSpecValue_eq, String.toList_ofList,
      extractedText_shownDisplay hspec htext, Option.map_some]
  have hstays : (∃ again, canonicalValue (valueReaders py) categorySlug key
      (String.ofList (shownDisplay py spec.unit text)) = some again ∧
        again.display = String.ofList (shownDisplay py spec.unit text) ∧ again.unit = spec.unit) ↔
      shownDisplay py spec.unit (shownDisplay py spec.unit text) = shownDisplay py spec.unit text := by
    rw [hagain]
    simp [String.ofList_inj]
  rw [hstays]
  cases hunit : spec.unit with
  | none =>
    refine iff_of_true rfl fun spec' hspec' unit hunit' => ?_
    rw [← Option.some.inj (hfind.symm.trans hspec'), hunit] at hunit'
    exact absurd hunit' (by simp)
  | some unit =>
    rw [shownDisplay_stays_iff ((allSpecs_units spec hspec).1 unit hunit)]
    constructor
    · intro hsettled spec' hspec' unit' hunit' text' htext'
      rw [← Option.some.inj (hfind.symm.trans hspec')] at hunit' htext'
      rw [← Option.some.inj (hunit.symm.trans hunit'), ← Option.some.inj (htext.symm.trans htext')]
      exact hsettled
    · intro hsame
      exact hsame spec hfind unit hunit text htext

def kiloohms : SpecValue := ⟨"resistance", "10 kΩ", some 10000, some "Ω", "resistance", "10k"⟩

theorem canonicalValue_stays_kiloohms :
    (∃ again, canonicalValue (valueReaders asciiTables) (some "resistor") "resistance" kiloohms.display = some again ∧
        again.display = kiloohms.display ∧ again.unit = kiloohms.unit) ↔
      RereadsSame asciiTables (some "resistor") "resistance" "10k" :=
  canonicalValue_stays_iff asciiTables (some "resistor") "resistance" "10k" kiloohms (by decide +kernel)

/-- A hundred-thousandth of a picofarad is stored as `0 pF`, and the next run stores `0 F`. -/
theorem femtofarads_rewritten :
    (canonicalValue (valueReaders asciiTables) (some "capacitor_ceramic") "capacitance" "0.00001 pF").map
        SpecValue.display = some "0 pF" ∧
      (canonicalValue (valueReaders asciiTables) (some "capacitor_ceramic") "capacitance" "0 pF").map
        SpecValue.display = some "0 F" := by
  decide +kernel

end StockManager.Specs
