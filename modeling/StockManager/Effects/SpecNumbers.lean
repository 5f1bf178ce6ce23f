import StockManager.Model.SpecValues

/-! # Numbers of specs, printed and read back -/

namespace StockManager.Specs

open DecimalContext (roundHalfUp)
open Trim (takeWhile_append dropWhile_append)

variable {py : ValueTables}
variable {n : ℕ} {v : ℚ}

theorem isDecimal_of_isDigit {c : Char} (h : c.isDigit) : py.isDecimal c = true := by
  have hlt : c.toNat < 128 := by
    have htoNat := Char.isDigit_iff_toNat.mp h
    simp only [Char.reduceToNat] at htoNat
    omega
  rw [py.decimal_ascii c hlt, h]

theorem digitsNumber_eq {digits : Text} (h : ∀ c ∈ digits, c.isDigit) :
    digitsNumber py digits = Nat.ofDigitChars 10 digits 0 := by
  have hfold (init : ℕ) : digits.foldl (fun n c => 10 * n + py.digitValue c) init =
      Nat.ofDigitChars 10 digits init := by
    induction digits generalizing init with
    | nil => rfl
    | cons c digits ih =>
      rw [List.foldl_cons, Nat.ofDigitChars_cons, py.digitValue_ascii c (h c List.mem_cons_self)]
      exact ih (fun d hd => h d (List.mem_cons_of_mem c hd)) _
  exact hfold 0

theorem isDigit_toDigits : ∀ c ∈ Nat.toDigits 10 n, c.isDigit := fun _ hc =>
  Nat.isDigit_of_mem_toDigits (by norm_num) (by norm_num) hc

theorem isDigit_digitChar {d : ℕ} (h : d < 10) : d.digitChar.isDigit := by
  interval_cases d <;> rfl

theorem isDigit_fourDigits (n : ℕ) : ∀ c ∈ fourDigits n, c.isDigit := by
  intro c hc
  simp only [fourDigits, List.mem_cons, List.not_mem_nil, or_false] at hc
  rcases hc with rfl | rfl | rfl | rfl <;> exact isDigit_digitChar (Nat.mod_lt _ (by norm_num))

theorem ofDigitChars_fourDigits (h : n < 10000) : Nat.ofDigitChars 10 (fourDigits n) 0 = n := by
  have hmod (m : ℕ) : m % 10 < 10 := Nat.mod_lt m (by norm_num)
  rw [fourDigits, Nat.ofDigitChars_cons_digitChar_of_lt_ten (hmod _),
    Nat.ofDigitChars_cons_digitChar_of_lt_ten (hmod _), Nat.ofDigitChars_cons_digitChar_of_lt_ten (hmod _),
    Nat.ofDigitChars_cons_digitChar_of_lt_ten (hmod _), Nat.ofDigitChars_nil]
  omega

theorem dropZeros_append (text : Text) : ∃ k, dropZeros text ++ List.replicate k '0' = text := by
  refine ⟨(text.reverse.takeWhile (· = '0')).length, ?_⟩
  have hzeros : text.reverse.takeWhile (· = '0') =
      List.replicate (text.reverse.takeWhile (· = '0')).length '0' :=
    List.eq_replicate_of_mem fun c hc => by simpa using List.mem_takeWhile_imp hc
  have hsplit := congrArg List.reverse (List.takeWhile_append_dropWhile (p := (· = '0')) (l := text.reverse))
  rw [List.reverse_append, List.reverse_reverse, hzeros, List.reverse_replicate] at hsplit
  exact hsplit

theorem dropZeros_fourDigits (h : n < 10000) :
    Nat.ofDigitChars 10 (dropZeros (fourDigits n)) 0 * 10 ^ (4 - (dropZeros (fourDigits n)).length) = n ∧
      (dropZeros (fourDigits n)).length ≤ 4 ∧ ∀ c ∈ dropZeros (fourDigits n), c.isDigit := by
  obtain ⟨k, hk⟩ := dropZeros_append (fourDigits n)
  have hlength := congrArg List.length hk
  rw [List.length_append, List.length_replicate, show (fourDigits n).length = 4 from rfl] at hlength
  have hvalue := ofDigitChars_fourDigits h
  rw [← hk, Nat.ofDigitChars_append, Nat.ofDigitChars_replicate_zero] at hvalue
  refine ⟨?_, by omega, fun c hc => isDigit_fourDigits n c (hk ▸ List.mem_append_left _ hc)⟩
  rw [show 4 - (dropZeros (fourDigits n)).length = k by omega, mul_comm, hvalue]

section Read

variable {neg : Bool} {n : ℕ} {rest : Text}

def EndsNumber (py : ValueTables) (rest : Text) : Prop :=
  ∀ c ∈ rest.head?, py.isDecimal c = false ∧ c ≠ '.' ∧ c ≠ '/'

theorem not_isDecimal_point : py.isDecimal '.' = false := by
  rw [py.decimal_ascii _ (by decide)]
  decide

theorem readUnsigned_shown (hrest : EndsNumber py rest) :
    readUnsigned py neg (Nat.toDigits 10 (n / 10000) ++ (fractionText (n % 10000) ++ rest)) =
      some (some (signed neg ((n : ℚ) / 10 ^ 4)), rest) := by
  have hwhole : ∀ c ∈ Nat.toDigits 10 (n / 10000), py.isDecimal c = true := fun c hc =>
    isDecimal_of_isDigit (isDigit_toDigits c hc)
  have hnondecimal : ∀ c ∈ rest.head?, py.isDecimal c = false := fun c hc => (hrest c hc).1
  obtain ⟨hvalue, hlength, hkept⟩ := dropZeros_fourDigits (Nat.mod_lt n (by norm_num : 0 < 10000))
  by_cases hzeros : dropZeros (fourDigits (n % 10000)) = []
  · -- the number is whole
    have hafter : rest.head? ≠ some '/' ∧ rest.head? ≠ some '.' :=
      ⟨fun h => (hrest _ h).2.2 rfl, fun h => (hrest _ h).2.1 rfl⟩
    have hn : (n : ℚ) / 10 ^ 4 = (n / 10000 : ℕ) := by
      rw [hzeros, Nat.ofDigitChars_nil, zero_mul] at hvalue
      have hsplit := Nat.div_add_mod n 10000
      rw [← hvalue, add_zero] at hsplit
      rw [div_eq_iff (by norm_num)]
      exact_mod_cast (by omega : n = n / 10000 * 10 ^ 4)
    rw [fractionText, if_pos hzeros, List.nil_append, readUnsigned]
    simp only [takeWhile_append hwhole hnondecimal, dropWhile_append hwhole hnondecimal]
    rw [if_neg Nat.toDigits_ne_nil, if_neg fun h => hafter.1 h.1, if_neg fun h => hafter.2 h.1,
      digitsNumber_eq isDigit_toDigits, Nat.ofDigitChars_ten_toDigits, hn]
  · have hpoint : ∀ c ∈ ('.' :: (dropZeros (fourDigits (n % 10000)) ++ rest)).head?, py.isDecimal c = false := by
      rintro c ⟨⟩
      exact not_isDecimal_point
    have hdecimal : ∀ c ∈ dropZeros (fourDigits (n % 10000)), py.isDecimal c = true := fun c hc =>
      isDecimal_of_isDigit (hkept c hc)
    rw [fractionText, if_neg hzeros, List.cons_append, readUnsigned]
    simp only [takeWhile_append hwhole hpoint, dropWhile_append hwhole hpoint, List.tail_cons,
      takeWhile_append hdecimal hnondecimal, dropWhile_append hdecimal hnondecimal, List.head?_cons]
    rw [if_neg Nat.toDigits_ne_nil, if_neg fun h => absurd h.1 (by decide), if_pos ⟨trivial, hzeros⟩,
      digitsNumber_eq (by
        intro c hc
        rcases List.mem_append.mp hc with hc | hc
        · exact isDigit_toDigits c hc
        · exact hkept c hc),
      Nat.ofDigitChars_append, Nat.ofDigitChars_ten_toDigits, Nat.ofDigitChars_eq_ofDigitChars_zero]
    -- the digits behind the point, with the zeros that were dropped, are the ten-thousandths
    have hsplit := Nat.div_add_mod n 10000
    have hpow : 10 ^ (dropZeros (fourDigits (n % 10000))).length *
        10 ^ (4 - (dropZeros (fourDigits (n % 10000))).length) = 10 ^ 4 := by
      rw [← pow_add]
      congr 1
      omega
    generalize Nat.ofDigitChars 10 (dropZeros (fourDigits (n % 10000))) 0 = d at hvalue
    generalize (dropZeros (fourDigits (n % 10000))).length = l at hvalue hlength hpow
    have hn : (10 ^ l * (n / 10000) + d) * 10 ^ 4 = n * 10 ^ l := by
      have hscaled : (10 ^ l * (n / 10000) + d) * 10 ^ (4 - l) = n := by
        rw [add_mul, hvalue, mul_right_comm, hpow]
        omega
      rw [← hpow, mul_comm (10 ^ l) (10 ^ (4 - l)), ← mul_assoc, hscaled]
    have hquotient : ((10 ^ l * (n / 10000) + d : ℕ) : ℚ) / 10 ^ l = (n : ℚ) / 10 ^ 4 := by
      rw [div_eq_div_iff (by positivity) (by norm_num)]
      exact_mod_cast hn
    rw [hquotient]

theorem readNumber_shownNumber (hrest : EndsNumber py rest) :
    readNumber py (shownNumber neg n ++ rest) = some (some (signed neg ((n : ℚ) / 10 ^ 4)), rest) := by
  have hdigit : ∀ c ∈ (Nat.toDigits 10 (n / 10000) ++ (fractionText (n % 10000) ++ rest)).head?, c.isDigit := by
    rw [List.head?_append_of_ne_nil _ Nat.toDigits_ne_nil]
    exact fun c hc => isDigit_toDigits c (List.mem_of_mem_head? hc)
  have hunsigned {c : Char} (hc : c.isDigit = false) :
      (Nat.toDigits 10 (n / 10000) ++ (fractionText (n % 10000) ++ rest)).head? ≠ some c := fun h =>
    absurd (hdigit c h) (by rw [hc]; decide)
  cases neg with
  | true =>
    rw [shownNumber, if_pos rfl, readNumber]
    simp only [List.append_assoc, List.cons_append, List.nil_append, List.head?_cons, List.tail_cons, or_true,
      if_true, decide_true]
    exact readUnsigned_shown hrest
  | false =>
    rw [shownNumber, if_neg (by decide), readNumber, List.nil_append, List.append_assoc,
      decide_eq_false (hunsigned rfl), if_neg (not_or.mpr ⟨hunsigned rfl, hunsigned rfl⟩)]
    exact readUnsigned_shown hrest

end Read

section Places

variable {m : ℚ} {n : ℕ}

theorem le_tenThousandths (k : ℕ) : k ≤ tenThousandths m ↔ (k : ℚ) ≤ |m| * 10 ^ 4 + 1 / 2 := by
  have hfloor := DecimalContext.natAbs_roundHalfUp (m * 10 ^ 4)
  rw [abs_mul, abs_of_pos (by norm_num : (0 : ℚ) < 10 ^ 4)] at hfloor
  have hle : (k : ℤ) ≤ ⌊|m| * 10 ^ 4 + 1 / 2⌋ ↔ ((k : ℤ) : ℚ) ≤ |m| * 10 ^ 4 + 1 / 2 := Int.le_floor
  rw [← hfloor, Int.cast_natCast] at hle
  rw [← hle, tenThousandths]
  omega

theorem tenThousandths_eq (h : |m| * 10 ^ 4 = n) : tenThousandths m = n := by
  have hle := (@le_tenThousandths m n).mpr (by rw [h]; linarith)
  have hnot : ¬ n + 1 ≤ tenThousandths m := fun hlt => by
    have hlt' := (le_tenThousandths (n + 1)).mp hlt
    rw [h] at hlt'
    push_cast at hlt'
    linarith
  omega

theorem trimNumber_eq (m : ℚ) : trimNumber m = shownNumber (m < 0) (tenThousandths m) := by
  rw [trimNumber]
  split
  next h =>
    rw [h, tenThousandths_eq (m := 0) (n := 0) (by simp)]
    decide
  next => rfl

end Places

/-- What `_engineering` shows: a mantissa from 1 to less than 1000 where the prefixes reach. -/
structure WellShown (n : ℕ) (e : ℤ) : Prop where
  lower : -12 ≤ e
  upper : e ≤ 12
  triple : e % 3 = 0
  one_le : e = -12 ∨ 10000 ≤ n
  lt_thousand : e = 12 ∨ n < 1000 * 10000

theorem clampExponent_cases (L : ℤ) :
    -12 ≤ clampExponent L ∧ clampExponent L ≤ 12 ∧ clampExponent L % 3 = 0 ∧
      (clampExponent L = -12 ∨ clampExponent L ≤ L) ∧ (clampExponent L = 12 ∨ L < clampExponent L + 3) := by
  rw [clampExponent]
  omega

theorem clampExponent_eq {L e : ℤ} (hlower : -12 ≤ e) (hupper : e ≤ 12) (htriple : e % 3 = 0)
    (hle : e = -12 ∨ e ≤ L) (hlt : e = 12 ∨ L < e + 3) : clampExponent L = e := by
  rw [clampExponent]
  omega

theorem mantissa_bounds {L : ℤ} {m : ℚ} (hlow : 10 ^ (L - clampExponent L) ≤ |m|)
    (hhigh : |m| ≤ 10 ^ (L + 1 - clampExponent L)) :
    (clampExponent L = -12 ∨ 1 ≤ |m|) ∧ (clampExponent L = 12 ∨ |m| ≤ 1000) := by
  obtain ⟨-, -, -, hle, hlt⟩ := clampExponent_cases L
  constructor
  · refine hle.imp_right fun h => le_trans ?_ hlow
    exact one_le_zpow₀ (by norm_num) (by omega)
  · refine hlt.imp_right fun h => hhigh.trans ?_
    have hpow : (10 : ℚ) ^ (L + 1 - clampExponent L) ≤ 10 ^ (3 : ℤ) :=
      zpow_le_zpow_right₀ (by norm_num) (by omega)
    exact hpow.trans (by norm_num)

theorem log_bounds (hv : v ≠ 0) :
    10 ^ adjusted v ≤ |v| ∧ |v| < 10 ^ (adjusted v + 1) := by
  have hlow : ((10 : ℕ) : ℚ) ^ Int.log 10 |v| ≤ |v| := Int.zpow_log_le_self (by norm_num) (abs_pos.mpr hv)
  have hhigh : |v| < ((10 : ℕ) : ℚ) ^ (Int.log 10 |v| + 1) := Int.lt_zpow_succ_log_self (by norm_num) _
  rw [Nat.cast_ofNat] at hlow hhigh
  exact ⟨hlow, hhigh⟩

theorem adjusted_lt (hv : v ≠ 0) (k : ℤ) : |v| < 10 ^ k ↔ adjusted v < k := by
  rw [adjusted, ← Int.lt_zpow_iff_log_lt (by norm_num) (abs_pos.mpr hv), Nat.cast_ofNat]

theorem le_adjusted (hv : v ≠ 0) (k : ℤ) : 10 ^ k ≤ |v| ↔ k ≤ adjusted v := by
  rw [adjusted, ← Int.zpow_le_iff_le_log (by norm_num) (abs_pos.mpr hv), Nat.cast_ofNat]

theorem abs_mul_zpow (v : ℚ) (e : ℤ) : |v * 10 ^ e| = |v| * 10 ^ e := by
  rw [abs_mul, abs_of_pos (zpow_pos (by norm_num : (0 : ℚ) < 10) e)]

theorem scaleb_neg_iff (hv : v ≠ 0) (e : ℤ) : scaleb v e < 0 ↔ v < 0 := by
  have hten : (0 : ℚ) < 10 ^ e := zpow_pos (by norm_num) e
  rw [scaleb, DecimalContext.round_mul_zpow, ← (DecimalContext.round_decade hv).2.2]
  exact ⟨fun h => neg_of_mul_neg_left h hten.le, fun h => mul_neg_of_neg_of_pos h hten⟩

theorem scaleb_bounds (hv : v ≠ 0) (e : ℤ) :
    10 ^ (adjusted v + e) ≤ |scaleb v e| ∧ |scaleb v e| ≤ 10 ^ (adjusted v + 1 + e) := by
  have hten : (0 : ℚ) < 10 ^ e := zpow_pos (by norm_num) e
  obtain ⟨hlow, hhigh, -⟩ := DecimalContext.round_decade hv
  rw [scaleb, DecimalContext.round_mul_zpow, abs_mul_zpow, zpow_add₀ (by norm_num), zpow_add₀ (by norm_num)]
  exact ⟨mul_le_mul_of_nonneg_right hlow hten.le, mul_le_mul_of_nonneg_right hhigh hten.le⟩

theorem scaleb_three (v : ℚ) (e : ℤ) : scaleb v (-(e + 3)) * 1000 = scaleb v (-e) := by
  rw [scaleb, scaleb, DecimalContext.round_mul_zpow, DecimalContext.round_mul_zpow, neg_add,
    zpow_add₀ (by norm_num)]
  norm_num
  ring

theorem engineering_wellShown (hv : v ≠ 0) :
    WellShown (tenThousandths (engineering v).1) (engineering v).2 ∧ ((engineering v).1 < 0 ↔ v < 0) := by
  obtain ⟨hlower, hupper, htriple, -, -⟩ := clampExponent_cases (adjusted v)
  obtain ⟨hlow, hhigh⟩ := scaleb_bounds hv (-clampExponent (adjusted v))
  obtain ⟨hone, hthousand⟩ := mantissa_bounds hlow hhigh
  rw [engineering]
  split
  next h =>
    obtain ⟨hcarry, hlt⟩ := h
    -- the mantissa lies between 999.99995 and 1000
    have hle : |scaleb v (-clampExponent (adjusted v))| ≤ 1000 :=
      hthousand.resolve_left (by omega)
    rw [le_tenThousandths] at hcarry
    have hshown : 10000 ≤ tenThousandths (scaleb v (-(clampExponent (adjusted v) + 3))) := by
      rw [le_tenThousandths]
      rw [← scaleb_three, abs_mul, abs_of_pos (by norm_num : (0 : ℚ) < 1000)] at hcarry
      push_cast at hcarry ⊢
      linarith
    have hnot : ¬ 10001 ≤ tenThousandths (scaleb v (-(clampExponent (adjusted v) + 3))) := by
      rw [le_tenThousandths]
      rw [← scaleb_three, abs_mul, abs_of_pos (by norm_num : (0 : ℚ) < 1000)] at hle
      push_cast
      linarith
    have hless : tenThousandths (scaleb v (-(clampExponent (adjusted v) + 3))) < 1000 * 10000 := by omega
    exact ⟨⟨by omega, by omega, by omega, .inr hshown, .inr hless⟩, scaleb_neg_iff hv _⟩
  next h =>
    refine ⟨⟨hlower, hupper, htriple, hone.imp_right fun h1 => ?_, ?_⟩, scaleb_neg_iff hv _⟩
    · rw [le_tenThousandths]
      push_cast
      linarith
    · by_contra hnot
      dsimp only at hnot
      exact h ⟨by omega, by omega⟩

def shownValue (negative : Bool) (n : ℕ) (e : ℤ) : ℚ := signed negative ((n : ℚ) / 10 ^ 4) * 10 ^ e

theorem abs_signed (negative : Bool) (q : ℚ) : |signed negative q| = |q| := by
  cases negative
  · rfl
  · exact abs_neg q

theorem abs_shownValue (negative : Bool) (n : ℕ) (e : ℤ) :
    |shownValue negative n e| = n / 10 ^ 4 * 10 ^ e := by
  rw [shownValue, abs_mul_zpow, abs_signed, abs_of_nonneg (by positivity)]

theorem shownValue_ne_zero (negative : Bool) (hn : n ≠ 0) (e : ℤ) : shownValue negative n e ≠ 0 := by
  rw [← abs_ne_zero, abs_shownValue]
  have hten : (0 : ℚ) < 10 ^ e := zpow_pos (by norm_num) e
  positivity

theorem signed_neg_iff (negative : Bool) (hn : n ≠ 0) :
    signed negative ((n : ℚ) / 10 ^ 4) < 0 ↔ negative = true := by
  have hpos : (0 : ℚ) < n / 10 ^ 4 := by positivity
  cases negative
  · exact iff_of_false (by simpa [signed] using hpos.le) (by decide)
  · exact iff_of_true (by simpa [signed] using hpos) rfl

theorem scaleb_shownValue (negative : Bool) (hn : n < 10 ^ 28) (e f : ℤ) :
    scaleb (shownValue negative n e) f = shownValue negative n (e + f) := by
  have hinteger : ∃ m : ℤ, |m| < 10 ^ 28 ∧ signed negative ((n : ℚ) / 10 ^ 4) = m * 10 ^ (-4 : ℤ) := by
    cases negative
    · refine ⟨n, by rw [abs_of_nonneg (by positivity)]; exact_mod_cast hn, ?_⟩
      rw [signed, if_neg (by decide), zpow_neg]
      rfl
    · refine ⟨-n, by rw [abs_neg, abs_of_nonneg (by positivity)]; exact_mod_cast hn, ?_⟩
      rw [signed, if_pos rfl, zpow_neg, Int.cast_neg, neg_mul]
      rfl
  obtain ⟨m, hm, hsigned⟩ := hinteger
  rw [scaleb, shownValue, shownValue, hsigned, mul_assoc, mul_assoc, ← zpow_add₀ (by norm_num),
    ← zpow_add₀ (by norm_num), DecimalContext.round_eq_self hm, mul_assoc, ← zpow_add₀ (by norm_num)]

/-- Engineering notation gives back the digits and the exponent that are shown. -/
theorem engineering_shownValue {negative : Bool} {e : ℤ} (h : WellShown n e) (hn : n ≠ 0)
    (hlt : n < 10 ^ 28) :
    engineering (shownValue negative n e) = (shownValue negative n 0, e) := by
  have hne := shownValue_ne_zero negative hn e
  have hclamp : clampExponent (adjusted (shownValue negative n e)) = e := by
    refine clampExponent_eq h.lower h.upper h.triple ?_ ?_
    · refine h.one_le.imp_right fun hle => ?_
      rw [← le_adjusted hne, abs_shownValue]
      have hten : (0 : ℚ) < 10 ^ e := zpow_pos (by norm_num) e
      have hone : (1 : ℚ) ≤ n / 10 ^ 4 := (one_le_div (by norm_num)).mpr (by exact_mod_cast hle)
      exact le_mul_of_one_le_left hten.le hone
    · refine h.lt_thousand.imp_right fun hlt => ?_
      rw [← adjusted_lt hne, abs_shownValue, zpow_add₀ (by norm_num), mul_comm]
      have hten : (0 : ℚ) < 10 ^ e := zpow_pos (by norm_num) e
      have hthousand : (n : ℚ) / 10 ^ 4 < 10 ^ (3 : ℤ) := by
        rw [div_lt_iff₀ (by norm_num)]
        exact_mod_cast hlt
      exact mul_lt_mul_of_pos_left hthousand hten
  have hmantissa : scaleb (shownValue negative n e) (-e) = shownValue negative n 0 := by
    rw [scaleb_shownValue negative hlt, add_neg_cancel]
  have hshown : tenThousandths (shownValue negative n 0) = n := by
    refine tenThousandths_eq ?_
    rw [abs_shownValue, zpow_zero]
    field_simp
  rw [engineering, hclamp, hmantissa, hshown, if_neg]
  rintro ⟨hcarry, htop⟩
  rcases h.lt_thousand with heq | hless <;> omega

end StockManager.Specs
