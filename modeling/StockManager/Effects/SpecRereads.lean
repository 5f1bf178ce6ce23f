import StockManager.Effects.SpecTerms

/-! # Which numbers are shown as which -/

namespace StockManager.Specs

variable {py : ValueTables} {v : ℚ}

/-- A number that the column holds and that has at most 28 digits -/
structure Stored (v : ℚ) : Prop where
  lt : |v| < 10 ^ 18
  exact : DecimalContext.round v = v

theorem Stored.scaleb (h : Stored v) (e : ℤ) : scaleb v e = v * 10 ^ e := by
  rw [Specs.scaleb, DecimalContext.round_mul_zpow, h.exact]

theorem stored_of_integer {m : ℤ} {k : ℤ} (hm : |m| ≤ 10 ^ 28) (hlt : |(m : ℚ) * 10 ^ k| < 10 ^ 18) :
    Stored ((m : ℚ) * 10 ^ k) := by
  refine ⟨hlt, ?_⟩
  rcases hm.lt_or_eq with hless | heq
  · exact DecimalContext.round_eq_self hless k
  · -- a carry to the 29th digit leaves a power of ten
    have hten : ∃ d : ℤ, |d| < 10 ^ DecimalContext.precision ∧ (m : ℚ) * 10 ^ k = d * 10 ^ (k + 28) := by
      have hpow : (10 : ℚ) ^ (k + 28) = 10 ^ k * 10 ^ 28 := by
        rw [zpow_add₀ (by norm_num)]
        norm_cast
      rcases abs_eq (by norm_num : (0 : ℤ) ≤ 10 ^ 28) |>.mp heq with rfl | rfl
      · refine ⟨1, by norm_num [DecimalContext.precision], ?_⟩
        rw [hpow]
        push_cast
        ring
      · refine ⟨-1, by norm_num [DecimalContext.precision], ?_⟩
        rw [hpow]
        push_cast
        ring
    obtain ⟨d, hd, heq'⟩ := hten
    rw [heq', DecimalContext.round_eq_self hd]

theorem roundHalfEven_abs_le {x : ℚ} {b : ℤ} (h : |x| ≤ b) : |Binary64.roundHalfEven x| ≤ b := by
  obtain ⟨hlow, hhigh⟩ := abs_le.mp h
  refine abs_le.mpr ⟨?_, (Binary64.roundHalfEven_le x).trans (Int.ceil_le.mpr hhigh)⟩
  refine le_trans (Int.le_floor.mpr ?_) (Binary64.floor_le_roundHalfEven x)
  push_cast
  exact hlow

theorem natAbs_roundHalfUp_le {x : ℚ} {b : ℕ} (h : |x| ≤ b) : (DecimalContext.roundHalfUp x).natAbs ≤ b := by
  have hfloor := DecimalContext.natAbs_roundHalfUp x
  have hlt : ⌊|x| + 1 / 2⌋ < (b : ℤ) + 1 := by
    rw [Int.floor_lt]
    push_cast
    linarith
  omega

theorem stored_of_fit {q : ℚ} {e : ℤ} (h : fitToColumn (scaleb q e) = some v) : Stored v := by
  have hzero_round : DecimalContext.round 0 = 0 := by simp [DecimalContext.round, Binary64.roundHalfEven]
  have hzero : Stored 0 := ⟨by norm_num, hzero_round⟩
  rw [fitToColumn] at h
  split at h
  next heq =>
    rw [← Option.some.inj h, heq]
    exact hzero
  next hne =>
    split at h
    next hrange =>
      have hlt : |scaleb q e| < 10 ^ 18 := by
        have hadjusted : adjusted (scaleb q e) < 18 := by omega
        rw [← adjusted_lt hne] at hadjusted
        exact_mod_cast hadjusted
      rw [← Option.some.inj h]
      set place := DecimalContext.lastPlace (q * 10 ^ e) with hplace
      set m := Binary64.roundHalfEven (q * 10 ^ e / 10 ^ place) with hm
      have hvalue : scaleb q e = m * 10 ^ place := rfl
      have hq : q * 10 ^ e ≠ 0 := fun hzero => hne (by rw [scaleb, hzero]; exact hzero_round)
      have hbound : |m| ≤ 10 ^ 28 := by
        refine roundHalfEven_abs_le ?_
        have hten : (0 : ℚ) < 10 ^ place := zpow_pos (by norm_num) _
        have hhigh := (log_bounds hq).2
        have hsplit : (10 : ℚ) ^ (adjusted (q * 10 ^ e) + 1) = 10 ^ 28 * 10 ^ place := by
          rw [show (10 : ℚ) ^ 28 = 10 ^ (28 : ℤ) by norm_cast, ← zpow_add₀ (by norm_num), hplace,
            DecimalContext.lastPlace, adjusted]
          congr 1
          ring
        rw [hsplit] at hhigh
        rw [abs_div, abs_of_pos hten, div_le_iff₀ hten]
        push_cast
        exact hhigh.le
      by_cases hscale : -18 ≤ place
      · -- no place is lost
        obtain ⟨k, hk⟩ := Int.eq_ofNat_of_zero_le (by omega : 0 ≤ place + 18)
        have hinteger : scaleb q e * 10 ^ 18 = ((m * 10 ^ k : ℤ) : ℚ) := by
          have hpow : (10 : ℚ) ^ place * 10 ^ (18 : ℤ) = 10 ^ k := by
            rw [← zpow_add₀ (by norm_num), hk]
            norm_cast
          rw [hvalue, mul_assoc]
          push_cast
          rw [← hpow]
          norm_cast
        rw [DecimalContext.toPlaces_roundHalfUp_eq hinteger, hvalue]
        rw [hvalue] at hlt
        exact stored_of_integer hbound hlt
      · -- a number with that many places is small
        have hvalue_le : |scaleb q e * 10 ^ 18| ≤ ((10 ^ 27 : ℕ) : ℚ) := by
          have hpow : (10 : ℚ) ^ place ≤ 10 ^ (-19 : ℤ) := zpow_le_zpow_right₀ (by norm_num) (by omega)
          have hten : (0 : ℚ) < 10 ^ place := zpow_pos (by norm_num) _
          have hm' : |(m : ℚ)| ≤ 10 ^ 28 := by exact_mod_cast hbound
          rw [hvalue, abs_mul, abs_mul_zpow, abs_of_pos (by norm_num : (0 : ℚ) < 10 ^ 18)]
          have hproduct := mul_le_mul hm' hpow hten.le (by norm_num)
          norm_num at hproduct ⊢
          linarith
        have hcount := natAbs_roundHalfUp_le hvalue_le
        have hplaces : DecimalContext.toPlaces DecimalContext.roundHalfUp 18 (scaleb q e) =
            (DecimalContext.roundHalfUp (scaleb q e * 10 ^ 18) : ℚ) * 10 ^ (-18 : ℤ) := by
          rw [DecimalContext.toPlaces, zpow_neg]
          rfl
        have hcount' : |(DecimalContext.roundHalfUp (scaleb q e * 10 ^ 18))| ≤ 10 ^ 27 := by
          rw [Int.abs_eq_natAbs]
          exact_mod_cast hcount
        rw [hplaces]
        refine stored_of_integer (hcount'.trans (by norm_num)) ?_
        have hcast : |(DecimalContext.roundHalfUp (scaleb q e * 10 ^ 18) : ℚ)| ≤ 10 ^ 27 := by
          exact_mod_cast hcount'
        rw [abs_mul_zpow]
        norm_num at hcast ⊢
        linarith
    next => exact absurd h (by simp)

theorem carry_iff (hv : Stored v) (e : ℤ) :
    1000 * 10000 ≤ tenThousandths (scaleb v (-e)) ↔ (10 ^ 7 - 1 / 2) * 10 ^ (e - 4) ≤ |v| := by
  have hten : (0 : ℚ) < 10 ^ (-e) := zpow_pos (by norm_num) _
  have hscale : (10 ^ 7 - 1 / 2 : ℚ) * 10 ^ (e - 4) * 10 ^ (-e) * 10 ^ 4 = 10 ^ 7 - 1 / 2 := by
    rw [mul_assoc (10 ^ 7 - 1 / 2 : ℚ), ← zpow_add₀ (by norm_num), show e - 4 + -e = -4 by ring]
    norm_num
  rw [le_tenThousandths, hv.scaleb, abs_mul_zpow]
  push_cast
  constructor
  · intro h
    by_contra hlt
    have hproduct := mul_lt_mul_of_pos_right (not_le.mp hlt) hten
    linarith
  · intro h
    have hproduct := mul_le_mul_of_nonneg_right h hten.le
    linarith

section Exponents

variable (hv : Stored v) (hne : v ≠ 0)

include hv hne

theorem le_exponent_iff {k : ℤ} (hlower : -9 ≤ k) (hupper : k ≤ 12) (htriple : k % 3 = 0) :
    k ≤ (engineering v).2 ↔ (10 ^ 7 - 1 / 2) * 10 ^ (k - 7) ≤ |v| := by
  obtain ⟨-, hclamp, htriple', hle, hlt⟩ := clampExponent_cases (adjusted v)
  obtain ⟨hlow, hhigh⟩ := log_bounds hne
  have hten (j : ℤ) : (0 : ℚ) < 10 ^ j := zpow_pos (by norm_num) j
  have hsplit : (10 : ℚ) ^ k = 10 ^ (k - 7) * 10 ^ 7 := by
    rw [show (10 : ℚ) ^ 7 = 10 ^ (7 : ℤ) by norm_cast, ← zpow_add₀ (by norm_num)]
    congr 1
    ring
  rcases lt_trichotomy k (clampExponent (adjusted v) + 3) with hbelow | heq | habove
  · -- the number has that many digits before the point
    have hreached : k ≤ clampExponent (adjusted v) := by omega
    have hexponent : clampExponent (adjusted v) ≤ (engineering v).2 := by
      rw [engineering]
      split
      · exact Int.le_add_of_nonneg_right (by norm_num)
      · exact le_rfl
    refine iff_of_true (hreached.trans hexponent) ?_
    have hpow : (10 : ℚ) ^ k ≤ 10 ^ adjusted v := zpow_le_zpow_right₀ (by norm_num) (by omega)
    have hpos := hten (k - 7)
    rw [hsplit] at hpow
    linarith
  · have hcarry := carry_iff hv (clampExponent (adjusted v))
    rw [show k - 7 = clampExponent (adjusted v) - 4 by omega, ← hcarry, engineering]
    split
    next h => exact iff_of_true heq.le h.1
    next h =>
      refine iff_of_false (fun hle => ?_) fun hcond => h ⟨hcond, by omega⟩
      dsimp only at hle
      omega
  · have hexponent : (engineering v).2 ≤ clampExponent (adjusted v) + 3 := by
      rw [engineering]
      split
      · exact le_rfl
      · exact Int.le_add_of_nonneg_right (by norm_num)
    refine iff_of_false (by omega) (not_le.mpr ?_)
    have hpow : (10 : ℚ) ^ (adjusted v + 1) ≤ 10 ^ (k - 3) := zpow_le_zpow_right₀ (by norm_num) (by omega)
    have hsplit' : (10 : ℚ) ^ (k - 3) = 10 ^ (k - 7) * 10 ^ 4 := by
      rw [show (10 : ℚ) ^ 4 = 10 ^ (4 : ℤ) by norm_cast, ← zpow_add₀ (by norm_num)]
      congr 1
      ring
    have hpos := hten (k - 7)
    rw [hsplit'] at hpow
    linarith

theorem exponent_eq_iff {k : ℤ} (hlower : -9 ≤ k) (hupper : k + 3 ≤ 12) (htriple : k % 3 = 0) :
    (engineering v).2 = k ↔ (10 ^ 7 - 1 / 2) * 10 ^ (k - 7) ≤ |v| ∧ |v| < (10 ^ 7 - 1 / 2) * 10 ^ (k - 4) := by
  have hthis := le_exponent_iff hv hne hlower (by omega) htriple
  have hnext := @le_exponent_iff v hv hne (k + 3) (by omega) hupper (by omega)
  rw [show k + 3 - 7 = k - 4 by ring] at hnext
  have hexponent := (engineering_wellShown hne).1.triple
  rw [← hthis, ← not_le, ← hnext]
  omega

theorem shown_zero_iff : tenThousandths (engineering v).1 = 0 ↔ |v| < 5 / 10 ^ 17 := by
  have hwell := (engineering_wellShown hne).1
  have hpico := @le_exponent_iff v hv hne (-9) (by norm_num) (by norm_num) (by norm_num)
  have hbottom : (engineering v).2 = -12 ↔ ¬ -9 ≤ (engineering v).2 := by
    have htriple := hwell.triple
    have hlower := hwell.lower
    omega
  by_cases htop : -9 ≤ (engineering v).2
  · refine iff_of_false (fun hzero => ?_) (not_lt.mpr ?_)
    · rcases hwell.one_le with heq | hle
      · omega
      · omega
    · rw [hpico] at htop
      norm_num at htop ⊢
      linarith
  · have hone := @le_tenThousandths (engineering v).1 1
    rw [engineering_fst, hbottom.mpr htop, hv.scaleb, abs_mul_zpow] at hone
    have hzero : tenThousandths (engineering v).1 = 0 ↔ ¬ 1 ≤ tenThousandths (engineering v).1 := by omega
    rw [hzero, engineering_fst, hbottom.mpr htop, hv.scaleb, hone, not_le]
    norm_num
    constructor
    · intro h
      linarith
    · intro h
      linarith

theorem le_shownValue_iff (negative : Bool) :
    10 ^ 18 ≤ |shownValue negative (tenThousandths (engineering v).1) (engineering v).2| ↔
      999999999950000000 ≤ |v| := by
  have hwell := (engineering_wellShown hne).1
  have htera := @le_exponent_iff v hv hne 12 (by norm_num) (by norm_num) (by norm_num)
  rw [abs_shownValue]
  by_cases htop : (engineering v).2 = 12
  · have hcount := @le_tenThousandths (engineering v).1 (10 ^ 10)
    have hscaled : (10 : ℚ) ^ 18 ≤ (tenThousandths (engineering v).1 : ℚ) / 10 ^ 4 * 10 ^ (12 : ℤ) ↔
        10 ^ 10 ≤ tenThousandths (engineering v).1 := by
      have hcast : 10 ^ 10 ≤ tenThousandths (engineering v).1 ↔
          (10 : ℚ) ^ 10 ≤ tenThousandths (engineering v).1 := by exact_mod_cast Iff.rfl
      rw [hcast, zpow_ofNat]
      constructor
      · intro h
        linarith
      · intro h
        linarith
    rw [htop, hscaled, hcount, engineering_fst, htop, hv.scaleb, abs_mul_zpow]
    norm_num
    constructor
    · intro h
      linarith
    · intro h
      linarith
  · have hlt := hwell.lt_thousand.resolve_left htop
    have hupper := hwell.upper
    refine iff_of_false (not_le.mpr ?_) fun hle => htop ?_
    · have hpow : (10 : ℚ) ^ (engineering v).2 ≤ 10 ^ (9 : ℤ) :=
        zpow_le_zpow_right₀ (by norm_num) (by have := hwell.triple; omega)
      have hcount : (tenThousandths (engineering v).1 : ℚ) / 10 ^ 4 ≤ 1000 := by
        rw [div_le_iff₀ (by norm_num)]
        exact_mod_cast (by omega : tenThousandths (engineering v).1 ≤ 1000 * 10 ^ 4)
      have hproduct := mul_le_mul hcount hpow (zpow_pos (by norm_num) _).le (by norm_num)
      norm_num at hproduct ⊢
      linarith
    · have htera' := htera.mpr (by norm_num; linarith)
      omega

theorem shown_lt : tenThousandths (engineering v).1 < 10 ^ 12 := by
  have hwell := (engineering_wellShown hne).1
  rcases hwell.lt_thousand with htop | hlt
  · by_contra hlarge
    have hle := (le_tenThousandths (10 ^ 12)).mp (not_lt.mp hlarge)
    have hsmall := hv.lt
    rw [engineering_fst, htop, hv.scaleb, abs_mul_zpow] at hle
    norm_num at hle hsmall
    linarith
  · exact hlt.trans (by norm_num)

end Exponents

theorem tenThousandths_eq_zero_iff : tenThousandths v = 0 ↔ |v| < 5 / 10 ^ 5 := by
  have hone := @le_tenThousandths v 1
  have hzero : tenThousandths v = 0 ↔ ¬ 1 ≤ tenThousandths v := by omega
  rw [hzero, hone, not_le]
  norm_num
  constructor
  · intro h
    linarith
  · intro h
    linarith

theorem le_shownValue_fixed_iff (negative : Bool) :
    10 ^ 18 ≤ |shownValue negative (tenThousandths v) 0| ↔ 10 ^ 18 - 1 / 20000 ≤ |v| := by
  have hcount := @le_tenThousandths v (10 ^ 22)
  have hcast : 10 ^ 22 ≤ tenThousandths v ↔ (10 : ℚ) ^ 22 ≤ tenThousandths v := by exact_mod_cast Iff.rfl
  rw [hcast] at hcount
  push_cast at hcount
  rw [abs_shownValue, zpow_zero, mul_one, le_div_iff₀ (by norm_num)]
  constructor
  · intro h
    have hle := hcount.mp (by linarith)
    linarith
  · intro h
    have hle := hcount.mpr (by linarith)
    linarith

end StockManager.Specs

/-! ## What becomes of one number when its display is read again -/

namespace StockManager.Specs

variable {py : ValueTables} {v : ℚ} {unit hint : Text}

theorem signed_zero (negative : Bool) : signed negative 0 = 0 := by cases negative <;> simp [signed]

theorem shownValue_zero (negative : Bool) (e : ℤ) : shownValue negative 0 e = 0 := by
  rw [shownValue, Nat.cast_zero, zero_div, signed_zero, zero_mul]

theorem displayText_tail {negative negative' : Bool} {n n' : ℕ} {e e' : ℤ} {entry entry' : UnitEntry}
    (py : ValueTables) (hentry : entry ∈ unitEntries) (hentry' : entry' ∈ unitEntries)
    (h : displayText negative n e entry = displayText negative' n' e' entry') :
    gap entry.space ++ shownToken e entry = gap entry'.space ++ shownToken e' entry' := by
  have hread := congrArg (readNumber py) h
  rw [displayText_eq hentry, displayText_eq hentry', ← shownToken, ← shownToken,
    readNumber_shownNumber (endsNumber_token hentry), readNumber_shownNumber (endsNumber_token hentry')] at hread
  exact (Prod.mk.inj (Option.some.inj hread)).2

/-- Shown in teraamperes, which are read as the ambient temperature -/
def IsAmbient (v : ℚ) (unit : Text) : Prop := unit = ['A'] ∧ 999999950000 ≤ |v|

/-- Shown in metres without a prefix, which under another hint are milli-units -/
def IsBareMetre (v : ℚ) (unit : Text) : Prop :=
  unit = ['m'] ∧ (v = 0 ∨ 99999995 / 10 ^ 8 ≤ |v| ∧ |v| < 99999995 / 10 ^ 5)

/-- Shown as a zero that keeps its prefix or its sign -/
def IsZeroed (v : ℚ) (unit : Text) : Prop :=
  (isScalable unit = true ∧ v ≠ 0 ∧ |v| < 5 / 10 ^ 17) ∨ (isScalable unit = false ∧ v < 0 ∧ |v| < 5 / 10 ^ 5)

/-- Shown as more than the column holds -/
def IsTooLarge (v : ℚ) (unit : Text) : Prop :=
  (if isScalable unit = true then 999999999950000000 else 10 ^ 18 - 1 / 20000) ≤ |v|

/-- The display cannot be read under the hint. -/
def IsLost (hint : Text) (v : ℚ) (unit : Text) : Prop :=
  (¬ IsAmbient v unit ∧ IsTooLarge v unit) ∨
    (IsBareMetre v unit ∧ hint ≠ ['m'] ∧ isScalable hint = false)

/-- The display is read as something that is shown otherwise. -/
def IsMoved (hint : Text) (v : ℚ) (unit : Text) : Prop :=
  IsAmbient v unit ∨ IsZeroed v unit ∨ (IsBareMetre v unit ∧ hint ≠ ['m'] ∧ isScalable hint = true)

/-- What the display of a number is read as under a hint -/
structure Outcome (hint : Text) (v : ℚ) (unit : Text) (read : Option Parsed) : Prop where
  lost : IsLost hint v unit → read = none
  kept : ¬ IsLost hint v unit → ∃ p, read = some p ∧ (unit = hint → p.unit = hint) ∧ Display p.display ∧
    (p.display = formatSi v unit ↔ ¬ IsMoved hint v unit)

theorem display_formatSi (hunit : unit ∈ unitEntries.map UnitEntry.symbol) (v : ℚ) : Display (formatSi v unit) := by
  rw [formatSi_eq]
  exact display_displayText (unitBySymbol_spec unit hunit).1

def unitTail (v : ℚ) (unit : Text) : Text :=
  gap (unitBySymbol unit).space ++ (displayPrefix (shownOf v (isScalable unit)).2 ++ unit)

theorem unitTail_of_formatSi {w : ℚ} (py : ValueTables) (hunit : unit ∈ unitEntries.map UnitEntry.symbol)
    (hhint : hint ∈ unitEntries.map UnitEntry.symbol) (h : formatSi w hint = formatSi v unit) :
    unitTail w hint = unitTail v unit := by
  obtain ⟨hentry, hsymbol⟩ := unitBySymbol_spec unit hunit
  obtain ⟨hentry', hsymbol'⟩ := unitBySymbol_spec hint hhint
  rw [formatSi_eq, formatSi_eq] at h
  have htail := displayText_tail py hentry' hentry h
  rwa [shownToken, shownToken, hsymbol, hsymbol'] at htail

theorem token_tail : ∀ unit ∈ unitEntries.map UnitEntry.symbol, ∀ p ∈ displayPrefixes.map Prod.snd,
    (gap (unitBySymbol unit).space ++ (p ++ unit) = [' ', 'T', 'A'] → p ++ unit = ['T', 'A']) ∧
      (gap (unitBySymbol unit).space ++ (p ++ unit) = [' ', 'm'] → p ++ unit = ['m']) := by decide

theorem ambient_iff : ∀ unit ∈ unitEntries.map UnitEntry.symbol, ∀ e ∈ displayPrefixes.map Prod.fst,
    displayPrefix e ++ unit = ['T', 'A'] ↔ unit = ['A'] ∧ e = 12 := by decide

theorem metre_iff : ∀ unit ∈ unitEntries.map UnitEntry.symbol, ∀ e ∈ displayPrefixes.map Prod.fst,
    displayPrefix e ++ unit = ['m'] ↔ unit = ['m'] ∧ e = 0 := by decide

theorem shownOf_exponent_mem (v : ℚ) (unit : Text) :
    (shownOf v (isScalable unit)).2 ∈ displayPrefixes.map Prod.fst := (shownOf_exponent v (unitBySymbol unit)).1

theorem ambient_exponent (hv : Stored v) : IsAmbient v unit ↔ unit = ['A'] ∧ (shownOf v (isScalable unit)).2 = 12 := by
  rw [IsAmbient]
  refine and_congr_right fun hampere => ?_
  have hscalable : isScalable unit = true := by rw [hampere]; decide
  rw [shownOf]
  split
  next hfixed =>
    have hzero : v = 0 := by simpa [hscalable] using hfixed
    rw [hzero]
    exact iff_of_false (by norm_num) (by decide)
  next hfixed =>
    push Not at hfixed
    have htera := @le_exponent_iff v hv hfixed.2 12 (by norm_num) (by norm_num) (by norm_num)
    have hupper := (engineering_wellShown hfixed.2).1.upper
    have hexponent : (engineering v).2 = 12 ↔ 12 ≤ (engineering v).2 := by omega
    rw [hexponent, htera]
    norm_num

theorem bareMetre_exponent (hv : Stored v) :
    IsBareMetre v unit ↔ unit = ['m'] ∧ (shownOf v (isScalable unit)).2 = 0 := by
  rw [IsBareMetre]
  refine and_congr_right fun hmetre => ?_
  have hscalable : isScalable unit = true := by rw [hmetre]; decide
  rw [shownOf]
  split
  next hfixed =>
    have hzero : v = 0 := by simpa [hscalable] using hfixed
    exact iff_of_true (.inl hzero) rfl
  next hfixed =>
    push Not at hfixed
    have hone := @exponent_eq_iff v hv hfixed.2 0 (by norm_num) (by norm_num) (by norm_num)
    rw [hone, or_iff_right hfixed.2]
    norm_num

theorem tenThousandths_shownValue (negative : Bool) (n : ℕ) : tenThousandths (shownValue negative n 0) = n := by
  refine tenThousandths_eq ?_
  rw [abs_shownValue, zpow_zero]
  field_simp

theorem decide_shownValue_neg (negative : Bool) {n : ℕ} (hn : n ≠ 0) (e : ℤ) :
    decide (shownValue negative n e < 0) = negative := by
  have hten : (0 : ℚ) < 10 ^ e := zpow_pos (by norm_num) e
  have hsign := signed_neg_iff negative hn
  have hiff : shownValue negative n e < 0 ↔ negative = true := by
    rw [shownValue, ← hsign]
    exact ⟨fun h => neg_of_mul_neg_left h hten.le, fun h => mul_neg_of_neg_of_pos h hten⟩
  rw [Bool.eq_iff_iff, decide_eq_true_iff]
  exact hiff

theorem tooLarge_iff (hv : Stored v) (negative : Bool) :
    IsTooLarge v unit ↔
      10 ^ 18 ≤ |shownValue negative (shownOf v (isScalable unit)).1 (shownOf v (isScalable unit)).2| := by
  rw [IsTooLarge, shownOf]
  cases hscalable : isScalable unit
  · rw [if_neg (by decide), if_pos (.inl rfl)]
    exact (le_shownValue_fixed_iff negative).symm
  · rw [if_pos rfl]
    by_cases hzero : v = 0
    · have hcount : tenThousandths (0 : ℚ) = 0 := tenThousandths_eq (by simp)
      rw [if_pos (.inr hzero), hzero, hcount, shownValue_zero]
      norm_num
    · rw [if_neg (by simp [hzero])]
      exact (le_shownValue_iff hv hzero negative).symm

theorem pico_tail : ∀ unit ∈ unitEntries.map UnitEntry.symbol,
    gap (unitBySymbol unit).space ++ (displayPrefix 0 ++ unit) ≠
      gap (unitBySymbol unit).space ++ (displayPrefix (-12) ++ unit) := by decide

theorem formatSi_shownValue_iff (py : ValueTables) (hunit : unit ∈ unitEntries.map UnitEntry.symbol) (hv : Stored v) :
    formatSi (shownValue (v < 0) (shownOf v (isScalable unit)).1 (shownOf v (isScalable unit)).2) unit =
      formatSi v unit ↔ ¬ IsZeroed v unit := by
  rw [IsZeroed]
  cases hscalable : isScalable unit
  · have hshown (w : ℚ) : shownOf w false = (tenThousandths w, 0) := rfl
    rw [formatSi_eq, formatSi_eq, hscalable, hshown, hshown]
    by_cases hn : tenThousandths v = 0
    · have hcount : tenThousandths (0 : ℚ) = 0 := tenThousandths_eq (by simp)
      have hsmall := tenThousandths_eq_zero_iff.mp hn
      rw [hn, shownValue_zero, hcount]
      by_cases hneg : v < 0
      · refine iff_of_false (fun heq => ?_) (fun h => h (.inr ⟨rfl, hneg, hsmall⟩))
        -- the sign of the zero
        rw [displayText_eq (unitBySymbol_spec unit hunit).1, displayText_eq (unitBySymbol_spec unit hunit).1,
          decide_eq_true hneg] at heq
        exact absurd (List.cons.inj heq).1 (by decide)
      · rw [decide_eq_false hneg]
        exact iff_of_true rfl (by simp [hneg])
    · rw [tenThousandths_shownValue, decide_shownValue_neg _ hn]
      refine iff_of_true rfl ?_
      rw [tenThousandths_eq_zero_iff] at hn
      simp [hn]
  · by_cases hzero : v = 0
    · have hcount : tenThousandths (0 : ℚ) = 0 := tenThousandths_eq (by simp)
      have hshown : shownOf v true = (0, 0) := by rw [shownOf, if_pos (.inr hzero), hzero, hcount]
      rw [hshown, shownValue_zero, hzero]
      exact iff_of_true rfl (by simp)
    · have hshown : shownOf v true = (tenThousandths (engineering v).1, (engineering v).2) := by
        rw [shownOf, if_neg (by simp [hzero])]
      have hwell := (engineering_wellShown hzero).1
      have hzeroed := shown_zero_iff hv hzero
      rw [hshown]
      by_cases hn : tenThousandths (engineering v).1 = 0
      · refine iff_of_false (fun heq => ?_) fun h => h (.inl ⟨rfl, hzero, hzeroed.mp hn⟩)
        have htail := unitTail_of_formatSi py hunit hunit heq
        have hbottom : (engineering v).2 = -12 := hwell.one_le.resolve_right (by omega)
        rw [unitTail, unitTail, hscalable, hshown, hn, shownValue_zero, shownOf, if_pos (.inr rfl), hbottom] at htail
        exact pico_tail unit hunit htail
      · have hlt : tenThousandths (engineering v).1 < 10 ^ 28 := (shown_lt hv hzero).trans (by norm_num)
        have hne := shownValue_ne_zero (decide (v < 0)) hn (engineering v).2
        refine iff_of_true ?_ ?_
        · rw [formatSi_eq, formatSi_eq, hscalable, hshown, decide_shownValue_neg _ hn, shownOf, if_neg (by simp [hne]),
            engineering_shownValue hwell hn hlt, tenThousandths_shownValue]
        · rw [hzeroed] at hn
          simp [hn]

theorem map_fit_shownValue (negative : Bool) (n : ℕ) {e : ℤ} (he : -12 ≤ e) (shown : ℚ → Parsed) :
    (fitToColumn (shownValue negative n e)).map shown =
      if 10 ^ 18 ≤ |shownValue negative n e| then none else some (shown (shownValue negative n e)) := by
  rw [fitToColumn_shownValue he]
  split <;> rfl

theorem stored_shownValue (negative : Bool) {n : ℕ} (hn : n < 10 ^ 28) {e : ℤ}
    (hlt : |shownValue negative n e| < 10 ^ 18) : Stored (shownValue negative n e) := by
  refine ⟨hlt, ?_⟩
  have hscaled := scaleb_shownValue negative hn e 0
  rwa [scaleb, zpow_zero, mul_one, add_zero] at hscaled

theorem shownOf_scaled_lt (hv : Stored v) : (shownOf v true).1 < 10 ^ 12 := by
  rw [shownOf]
  split
  next h =>
    have hcount : tenThousandths (0 : ℚ) = 0 := tenThousandths_eq (by simp)
    rw [h.resolve_left (by decide), hcount]
    norm_num
  next h => exact shown_lt hv (not_or.mp h).2

theorem outcome_ambient (hunit : unit ∈ unitEntries.map UnitEntry.symbol)
    (hhint : hint ∈ unitEntries.map UnitEntry.symbol) (hv : Stored v) (hambient : IsAmbient v unit) (depth : ℕ) :
    Outcome hint v unit (parseWith py (depth + 1) (formatSi v unit) (some hint)) := by
  obtain ⟨hampere, htop⟩ := (ambient_exponent hv).mp hambient
  have hscalable : isScalable unit = true := by rw [hampere]; decide
  have hne : v ≠ 0 := fun hzero => by
    have hlarge := hambient.2
    rw [hzero] at hlarge
    norm_num at hlarge
  have hshown : shownOf v true = (tenThousandths (engineering v).1, (engineering v).2) := by
    rw [shownOf, if_neg (by simp [hne])]
  have hexponent : (engineering v).2 = 12 := by
    rw [hscalable, hshown] at htop
    exact htop
  have hn : tenThousandths (engineering v).1 ≠ 0 := fun hzero => by
    rcases (engineering_wellShown hne).1.one_le with h | h <;> omega
  have hlt := shown_lt hv hne
  have habs : |shownValue (v < 0) (tenThousandths (engineering v).1) 0| < 10 ^ 8 := by
    rw [abs_shownValue, zpow_zero, mul_one, div_lt_iff₀ (by norm_num)]
    exact_mod_cast hlt
  have hfits : ¬ 10 ^ 18 ≤ |shownValue (v < 0) (tenThousandths (engineering v).1) 0| := by
    rw [not_le]
    exact habs.trans (by norm_num)
  have hread : readUnit 12 unit hint = some (hint, 0) := if_pos (by rw [hampere]; decide)
  rw [parseWith_formatSi hunit hhint hv.lt.le, htop, hread, Option.bind_some, hscalable, hshown,
    map_fit_shownValue _ _ (by norm_num), if_neg hfits]
  refine ⟨fun hlost => ?_, fun _ => ⟨_, rfl, fun _ => rfl, display_formatSi hhint _, iff_of_false (fun heq => ?_)
    fun h => h (.inl hambient)⟩⟩
  · rcases hlost with ⟨hnot, -⟩ | ⟨⟨hmetre, -⟩, -⟩
    · exact absurd hambient hnot
    · rw [hampere] at hmetre
      exact absurd hmetre (by decide)
  · have htail := unitTail_of_formatSi py hunit hhint heq
    rw [unitTail, unitTail, htop, hampere] at htail
    have hmem := displayPrefix_mem (shownOf (shownValue (v < 0) (tenThousandths (engineering v).1) 0) (isScalable hint)).2
    obtain ⟨hampere', htop'⟩ := (ambient_iff hint hhint _ (shownOf_exponent_mem _ hint)).mp
      ((token_tail hint hhint _ hmem).1 (htail.trans (by decide)))
    -- so many amperes are not shown with a tera
    have hstored := stored_shownValue (v < 0) (hlt.trans (by norm_num)) (habs.trans (by norm_num))
    have hlarge := ((ambient_exponent hstored).mpr ⟨hampere', htop'⟩).2
    linarith

theorem outcome_metre (hunit : unit ∈ unitEntries.map UnitEntry.symbol)
    (hhint : hint ∈ unitEntries.map UnitEntry.symbol) (hv : Stored v) (hmetre : IsBareMetre v unit)
    (hne : hint ≠ ['m']) (depth : ℕ) :
    Outcome hint v unit (parseWith py (depth + 1) (formatSi v unit) (some hint)) := by
  obtain ⟨hunit', hexponent⟩ := (bareMetre_exponent hv).mp hmetre
  have hread : readUnit 0 unit hint = if isScalable hint then some (hint, -3) else none := by
    rw [readUnit, if_neg (by rw [hunit']; decide), if_pos ⟨by rw [hunit']; decide, hne⟩]
  have hambient : ¬ IsAmbient v unit := fun h => by
    rw [hunit'] at h
    exact absurd h.1 (by decide)
  rw [parseWith_formatSi hunit hhint hv.lt.le, hexponent, hread]
  cases hscalable : isScalable hint
  · exact ⟨fun _ => rfl, fun hkept => absurd (.inr ⟨hmetre, hne, hscalable⟩) hkept⟩
  · have hscaled : isScalable unit = true := by rw [hunit']; decide
    have hsmall : |shownValue (v < 0) (shownOf v (isScalable unit)).1 (-3)| < 10 ^ 18 := by
      have hlt : ((shownOf v (isScalable unit)).1 : ℚ) < 10 ^ 12 := by
        rw [hscaled]
        exact_mod_cast shownOf_scaled_lt hv
      rw [abs_shownValue, show (10 : ℚ) ^ (-3 : ℤ) = 1 / 1000 by norm_num]
      linarith
    rw [if_pos rfl, Option.bind_some, map_fit_shownValue _ _ (by norm_num), if_neg (not_le.mpr hsmall)]
    refine ⟨fun hlost => ?_, fun _ => ⟨_, rfl, fun _ => rfl, display_formatSi hhint _, iff_of_false (fun heq => ?_)
      fun h => h (.inr (.inr ⟨hmetre, hne, hscalable⟩))⟩⟩
    · rcases hlost with ⟨-, hlarge⟩ | ⟨-, -, hfixed⟩
      · rw [IsTooLarge, hscaled, if_pos rfl] at hlarge
        rcases hmetre.2 with hzero | ⟨-, hless⟩
        · rw [hzero] at hlarge
          norm_num at hlarge
        · norm_num at hless
          linarith
      · rw [hscalable] at hfixed
        exact absurd hfixed (by decide)
    · have htail := unitTail_of_formatSi py hunit hhint heq
      rw [unitTail, unitTail, hexponent, hunit'] at htail
      have hmem := displayPrefix_mem (shownOf (shownValue (v < 0) (shownOf v (isScalable unit)).1 (-3)) (isScalable hint)).2
      rw [hunit'] at hmem
      exact hne ((metre_iff hint hhint _ (shownOf_exponent_mem _ hint)).mp
        ((token_tail hint hhint _ hmem).2 (htail.trans (by decide)))).1

/-- The text of a stored number is lost, moved or kept when it is read under a hint. -/
theorem outcome_formatSi (hunit : unit ∈ unitEntries.map UnitEntry.symbol)
    (hhint : hint ∈ unitEntries.map UnitEntry.symbol) (hv : Stored v) (depth : ℕ) :
    Outcome hint v unit (parseWith py (depth + 1) (formatSi v unit) (some hint)) := by
  by_cases hambient : IsAmbient v unit
  · exact outcome_ambient hunit hhint hv hambient depth
  by_cases hmetre : IsBareMetre v unit ∧ hint ≠ ['m']
  · exact outcome_metre hunit hhint hv hmetre.1 hmetre.2 depth
  -- the unit is read as it is shown
  have hmem := shownOf_exponent_mem v unit
  have hta : displayPrefix (shownOf v (isScalable unit)).2 ++ unit ≠ ['T', 'A'] := fun h =>
    hambient ((ambient_exponent hv).mpr ((ambient_iff unit hunit _ hmem).mp h))
  have hbare : ¬ (displayPrefix (shownOf v (isScalable unit)).2 ++ unit = ['m'] ∧ hint ≠ ['m']) := fun h =>
    hmetre ⟨(bareMetre_exponent hv).mpr ((metre_iff unit hunit _ hmem).mp h.1), h.2⟩
  have hlower : ∀ e ∈ displayPrefixes.map Prod.fst, -12 ≤ e := by decide
  rw [parseWith_formatSi hunit hhint hv.lt.le, readUnit, if_neg hta, if_neg hbare, Option.bind_some,
    map_fit_shownValue _ _ (hlower _ hmem)]
  have hlarge := @tooLarge_iff v unit hv (v < 0)
  have hlost : IsLost hint v unit ↔ IsTooLarge v unit := by
    rw [IsLost, and_iff_right hambient]
    exact or_iff_left fun h => hmetre ⟨h.1, h.2.1⟩
  have hmoved : IsMoved hint v unit ↔ IsZeroed v unit := by
    rw [IsMoved, or_iff_right hambient]
    exact or_iff_left fun h => hmetre ⟨h.1, h.2.1⟩
  refine ⟨fun h => if_pos (hlarge.mp (hlost.mp h)), fun h => ?_⟩
  refine ⟨_, if_neg fun hle => h (hlost.mpr (hlarge.mpr hle)), fun heq => heq, display_formatSi hunit _, ?_⟩
  rw [hmoved]
  exact formatSi_shownValue_iff py hunit hv

end StockManager.Specs
