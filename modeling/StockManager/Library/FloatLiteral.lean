import Mathlib.Data.List.Basic
import Mathlib.Tactic.Common
import StockManager.Library.Binary64

/-! # Decimal literals of floating-point numbers, as Python's `float` reads them -/

namespace FloatLiteral

inductive Literal
  | finite (value : ℚ)
  | infinite (negative : Bool)
  | nan
  deriving DecidableEq

def Literal.negate : Literal → Literal
  | finite value => finite (-value)
  | infinite negative => infinite (!negative)
  | nan => nan

def digitsValue (digits : List Char) : ℕ := digits.foldl (fun n c => 10 * n + (c.toNat - 48)) 0

/-- Underscores stand between digits only. -/
def underscoresOk : Option Char → List Char → Bool
  | _, [] => true
  | before, c :: rest =>
    (c ≠ '_' ∨ (before.any Char.isDigit ∧ rest.head?.any Char.isDigit)) ∧ underscoresOk (some c) rest

def splitSign (text : List Char) : Bool × List Char :=
  if text.head? = some '-' then (true, text.tail)
  else if text.head? = some '+' then (false, text.tail)
  else (false, text)

def readExponent : List Char → Option ℤ
  | [] => some 0
  | e :: rest =>
    let digits := (splitSign rest).2
    if (e = 'e' ∨ e = 'E') ∧ digits ≠ [] ∧ digits.all Char.isDigit then
      some (if (splitSign rest).1 then -digitsValue digits else digitsValue digits)
    else none

def readName (text : List Char) : Option Literal :=
  let name := text.map Char.toLower
  if name = "inf".toList ∨ name = "infinity".toList then some (.infinite false)
  else if name = "nan".toList then some .nan
  else none

/-- The digits of the fraction and what stands behind them -/
def readFraction (text : List Char) : List Char × List Char :=
  if text.head? = some '.' then
    (text.tail.takeWhile Char.isDigit, text.tail.dropWhile Char.isDigit)
  else ([], text)

def readUnsigned (text : List Char) : Option Literal :=
  let whole := text.takeWhile Char.isDigit
  let fraction := (readFraction (text.dropWhile Char.isDigit)).1
  if whole = [] ∧ fraction = [] then readName text
  else (readExponent (readFraction (text.dropWhile Char.isDigit)).2).map fun e =>
    .finite (digitsValue (whole ++ fraction) * (10 : ℚ) ^ (e - (fraction.length : ℤ)))

def parse (text : List Char) : Option Literal :=
  if underscoresOk none text then
    let signed := splitSign (text.filter (· ≠ '_'))
    (readUnsigned signed.2).map fun literal => if signed.1 then literal.negate else literal
  else none

def toDouble : Literal → Binary64.Double
  | .finite value => Binary64.ofRat value
  | .infinite negative => .infinite negative
  | .nan => .nan

/-- A sign, decimal digits and perhaps a point followed by zeros -/
structure IntegerLiteral (text : List Char) (n : ℤ) : Prop where
  shape : ∃ sign whole fraction, text = sign ++ whole ++ fraction ∧
    (sign = [] ∨ sign = ['+'] ∨ sign = ['-']) ∧ whole ≠ [] ∧ whole.all Char.isDigit ∧
    (fraction = [] ∨ ∃ zeros, fraction = '.' :: zeros ∧ zeros.all (· = '0')) ∧
    n = if sign = ['-'] then -(digitsValue whole : ℤ) else digitsValue whole

theorem digitsValue_append_zeros (digits : List Char) {zeros : List Char} (h : zeros.all (· = '0')) :
    digitsValue (digits ++ zeros) = digitsValue digits * 10 ^ zeros.length := by
  induction zeros using List.reverseRecOn with
  | nil => simp
  | append_singleton zeros c ih =>
    rw [List.all_append, Bool.and_eq_true] at h
    have hc : c = '0' := by simpa using h.2
    have hold := ih h.1
    rw [digitsValue] at hold ⊢
    rw [← List.append_assoc, List.foldl_append, hold, hc]
    simp [pow_succ]
    ring

theorem underscoresOk_of_not_mem {before : Option Char} {text : List Char} (h : '_' ∉ text) :
    underscoresOk before text = true := by
  induction text generalizing before with
  | nil => rfl
  | cons c rest ih =>
    rw [List.mem_cons, not_or] at h
    rw [underscoresOk, decide_eq_true_eq]
    exact ⟨.inl (Ne.symm h.1), ih h.2⟩

theorem splitSign_digits {digits rest : List Char} (hne : digits ≠ []) (h : digits.all Char.isDigit) :
    splitSign (digits ++ rest) = (false, digits ++ rest) := by
  cases digits with
  | nil => exact absurd rfl hne
  | cons c digits =>
    rw [List.all_cons, Bool.and_eq_true] at h
    have hminus : c ≠ '-' := fun heq => by rw [heq] at h; exact absurd h.1 (by decide)
    have hplus : c ≠ '+' := fun heq => by rw [heq] at h; exact absurd h.1 (by decide)
    simp [splitSign, hminus, hplus]

theorem takeWhile_digits {digits rest : List Char} (h : digits.all Char.isDigit)
    (hrest : rest.head?.any Char.isDigit = false) :
    (digits ++ rest).takeWhile Char.isDigit = digits ∧ (digits ++ rest).dropWhile Char.isDigit = rest := by
  rw [List.all_eq_true] at h
  rw [List.takeWhile_append_of_pos h, List.dropWhile_append_of_pos h]
  cases rest with
  | nil => simp
  | cons c rest =>
    have hc : c.isDigit = false := hrest
    simp [hc]

theorem isDigit_zeros {zeros : List Char} (h : zeros.all (· = '0')) : zeros.all Char.isDigit := by
  rw [List.all_eq_true] at h ⊢
  intro c hc
  rw [of_decide_eq_true (h c hc)]
  rfl

theorem readUnsigned_integer {whole fraction : List Char} (hne : whole ≠ [])
    (hwhole : whole.all Char.isDigit)
    (hfraction : fraction = [] ∨ ∃ zeros, fraction = '.' :: zeros ∧ zeros.all (· = '0')) :
    readUnsigned (whole ++ fraction) = some (.finite (digitsValue whole)) := by
  have hhead : fraction.head?.any Char.isDigit = false := by
    rcases hfraction with rfl | ⟨zeros, rfl, -⟩ <;> rfl
  obtain ⟨htake, hdrop⟩ := takeWhile_digits hwhole hhead
  rw [readUnsigned, htake, hdrop, if_neg fun h => hne h.1]
  rcases hfraction with rfl | ⟨zeros, rfl, hzeros⟩
  · simp [readFraction, readExponent]
  · have hdigits := isDigit_zeros hzeros
    rw [List.all_eq_true] at hdigits
    have hall := @takeWhile_digits zeros [] (isDigit_zeros hzeros) rfl
    rw [List.append_nil] at hall
    have hread : readFraction ('.' :: zeros) = (zeros, []) := by
      rw [readFraction, List.head?_cons, if_pos rfl, List.tail_cons, hall.1, hall.2]
    rw [hread, readExponent, Option.map_some, digitsValue_append_zeros whole hzeros, zero_sub, zpow_neg,
      zpow_natCast]
    push_cast
    rw [mul_assoc, mul_inv_cancel₀ (by positivity), mul_one]

theorem parse_integerLiteral {text : List Char} {n : ℤ} (h : IntegerLiteral text n) :
    parse text = some (.finite n) := by
  obtain ⟨sign, whole, fraction, rfl, hsign, hne, hwhole, hfraction, rfl⟩ := h.shape
  have hunderscore : '_' ∉ sign ++ whole ++ fraction := by
    have hdigit : ∀ c ∈ whole, c ≠ '_' := fun c hc heq => by
      have hisDigit := List.all_eq_true.mp hwhole c hc
      rw [heq] at hisDigit
      exact absurd hisDigit (by decide)
    have hsigned : '_' ∉ sign := by rcases hsign with rfl | rfl | rfl <;> decide
    have hzeros : '_' ∉ fraction := by
      rcases hfraction with rfl | ⟨zeros, rfl, hzeros⟩
      · exact List.not_mem_nil
      · intro hmem
        rcases List.mem_cons.mp hmem with hpoint | hmem
        · exact absurd hpoint (by decide)
        · exact absurd (of_decide_eq_true (List.all_eq_true.mp hzeros _ hmem)) (by decide)
    rw [List.mem_append, List.mem_append]
    exact not_or.mpr ⟨not_or.mpr ⟨hsigned, fun h => hdigit _ h rfl⟩, hzeros⟩
  have hfilter : (sign ++ whole ++ fraction).filter (· ≠ '_') = sign ++ whole ++ fraction := by
    rw [List.filter_eq_self]
    exact fun c hc => decide_eq_true fun heq => hunderscore (heq ▸ hc)
  have hread := readUnsigned_integer hne hwhole hfraction
  rw [parse, if_pos (underscoresOk_of_not_mem hunderscore), hfilter]
  rcases hsign with rfl | rfl | rfl
  · rw [List.nil_append, splitSign_digits hne hwhole]
    simp [hread]
  · rw [List.append_assoc]
    simp [splitSign, hread]
  · rw [List.append_assoc]
    simp [splitSign, hread, Literal.negate]

end FloatLiteral
