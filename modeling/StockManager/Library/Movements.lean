import Mathlib.Algebra.Order.Group.Defs
import Mathlib.Logic.Function.Basic
import Mathlib.Tactic.Common

/-! # Movements on a map of quantities

What bookkeeping operations do to a map from accounts to quantities, with no
ledger behind it. A movement is admissible when it takes no more than the
account holds; admissible movements keep every account non-negative. -/

inductive Movement (κ M : Type)
  | credit (account : κ) (amount : M)
  | debit (account : κ) (amount : M)
  | transfer (source dest : κ) (amount : M)
  | setTo (account : κ) (amount : M)

namespace Movement

variable {κ M : Type} [DecidableEq κ] [AddCommGroup M]

def apply (m : κ → M) : Movement κ M → κ → M
  | credit a q => Function.update m a (m a + q)
  | debit a q => Function.update m a (m a - q)
  | transfer a b q =>
    let taken := Function.update m a (m a - q)
    Function.update taken b (taken b + q)
  | setTo a q => Function.update m a q

def applyAll (m : κ → M) (moves : List (Movement κ M)) : κ → M := moves.foldl apply m

/-- The accounts a movement names. -/
def accounts : Movement κ M → List κ
  | credit a _ => [a]
  | debit a _ => [a]
  | transfer a b _ => [a, b]
  | setTo a _ => [a]

@[simp] theorem applyAll_nil (m : κ → M) : applyAll m [] = m := rfl

@[simp] theorem applyAll_cons (m : κ → M) (mv : Movement κ M) (moves : List (Movement κ M)) :
    applyAll m (mv :: moves) = applyAll (apply m mv) moves := rfl

theorem apply_frame {m : κ → M} {mv : Movement κ M} {k : κ} (h : k ∉ mv.accounts) :
    apply m mv k = m k := by
  cases mv <;> simp_all [apply, accounts, Function.update_apply]

theorem applyAll_frame {m : κ → M} {moves : List (Movement κ M)} {k : κ}
    (h : ∀ mv ∈ moves, k ∉ mv.accounts) : applyAll m moves k = m k := by
  induction moves generalizing m with
  | nil => rfl
  | cons mv moves ih =>
    rw [applyAll_cons, ih (fun x hx => h x (List.mem_cons_of_mem _ hx))]
    exact apply_frame (h mv (List.mem_cons_self ..))

def gains : Movement κ M → List κ
  | credit a _ => [a]
  | debit _ _ => []
  | transfer _ b _ => [b]
  | setTo a _ => [a]

def amount : Movement κ M → M
  | credit _ q => q
  | debit _ q => q
  | transfer _ _ q => q
  | setTo _ q => q

theorem apply_le [LinearOrder M] [IsOrderedAddMonoid M] {m : κ → M} {mv : Movement κ M} {k : κ}
    (hq : 0 ≤ mv.amount) (h : k ∉ mv.gains) : apply m mv k ≤ m k := by
  cases mv with
  | credit a q =>
    have hk : k ≠ a := by simpa [gains] using h
    simp [apply, hk]
  | debit a q =>
    by_cases hk : k = a
    · simpa [apply, hk, amount] using hq
    · simp [apply, hk]
  | transfer a b q =>
    have hb : k ≠ b := by simpa [gains] using h
    by_cases hk : k = a
    · have hne : a ≠ b := hk ▸ hb
      simpa [apply, hk, hne, amount] using hq
    · simp [apply, hk, hb]
  | setTo a q =>
    have hk : k ≠ a := by simpa [gains] using h
    simp [apply, hk]

def Admissible [LE M] (m : κ → M) : Movement κ M → Prop
  | credit _ q => 0 ≤ q
  | debit a q => q ≤ m a
  | transfer a _ q => 0 ≤ q ∧ q ≤ m a
  | setTo _ q => 0 ≤ q

theorem nonneg_apply [LinearOrder M] [IsOrderedAddMonoid M] {m : κ → M} {mv : Movement κ M}
    (hm : ∀ k, 0 ≤ m k) (h : Admissible m mv) (k : κ) : 0 ≤ apply m mv k := by
  cases mv with
  | credit a q =>
    by_cases hk : k = a
    · simpa [apply, hk] using add_nonneg (hm a) h
    · simpa [apply, hk] using hm k
  | debit a q =>
    by_cases hk : k = a
    · simpa [apply, hk, Admissible] using h
    · simpa [apply, hk] using hm k
  | transfer a b q =>
    have htaken : ∀ j, 0 ≤ Function.update m a (m a - q) j := by
      intro j
      by_cases hj : j = a
      · simpa [hj] using h.2
      · simpa [hj] using hm j
    by_cases hk : k = b
    · simpa [apply, hk] using add_nonneg (htaken b) h.1
    · simpa [apply, hk] using htaken k
  | setTo a q =>
    by_cases hk : k = a
    · simpa [apply, hk, Admissible] using h
    · simpa [apply, hk] using hm k

end Movement
