import Mathlib.Data.Finset.Card
import Mathlib.Data.Finset.Union
import Mathlib.NumberTheory.Harmonic.Defs
import Mathlib.Algebra.Order.Field.Rat
import Mathlib.Tactic.Linarith
import Mathlib.Tactic.FieldSimp
import Mathlib.Tactic.Positivity

/-! # Covers and greedy choice

Sets with a name cover points. A greedy run takes, again and again, a set that
covers most of the points left. Of `n` points it leaves the same as any other
choice would in the end, and it takes at most `harmonic n` times as many sets as
the smallest cover has. -/

namespace GreedyCover

variable {κ α : Type} [DecidableEq α] (covers : κ → Finset α)

/-- What some sets cover together. -/
def covered (sets : List κ) : Finset α := sets.foldr (fun k points => covers k ∪ points) ∅

@[simp] theorem covered_nil : covered covers [] = ∅ := rfl

@[simp] theorem covered_cons (k : κ) (sets : List κ) :
    covered covers (k :: sets) = covers k ∪ covered covers sets := rfl

theorem mem_covered {sets : List κ} {x : α} :
    x ∈ covered covers sets ↔ ∃ k ∈ sets, x ∈ covers k := by
  induction sets with
  | nil => simp
  | cons k sets ih => simp [ih]

theorem covered_append (a b : List κ) :
    covered covers (a ++ b) = covered covers a ∪ covered covers b := by
  ext x
  simp only [Finset.mem_union, mem_covered, List.mem_append, or_and_right, exists_or]

theorem covered_subset {a b : List κ} (h : ∀ k ∈ a, k ∈ b) :
    covered covers a ⊆ covered covers b := by
  intro x hx
  obtain ⟨k, hk, hmem⟩ := (mem_covered covers).mp hx
  exact (mem_covered covers).mpr ⟨k, h k hk, hmem⟩

/-- Choices made one after another, from the points left before to those left after. -/
inductive Run : Finset α → List κ → Finset α → Prop
  | stop (left : Finset α) : Run left [] left
  | take {left after : Finset α} {k : κ} {rest : List κ}
      (hmost : ∀ j, (covers j ∩ left).card ≤ (covers k ∩ left).card)
      (hsome : (covers k ∩ left).Nonempty) (hrest : Run (left \ covers k) rest after) :
      Run left (k :: rest) after

variable {covers} {left after : Finset α} {chosen : List κ}

theorem Run.adds (h : Run covers left chosen after) {before rest : List κ} {k : κ}
    (hsplit : chosen = before ++ k :: rest) :
    ∃ x ∈ covers k, x ∈ left ∧ x ∉ covered covers before := by
  induction h generalizing before with
  | stop => cases before <;> cases hsplit
  | take _ hsome _ ih =>
    cases before with
    | nil =>
      obtain ⟨rfl, _⟩ := List.cons.inj hsplit
      obtain ⟨x, hx⟩ := hsome
      have hboth := Finset.mem_inter.mp hx
      exact ⟨x, hboth.1, hboth.2, by simp⟩
    | cons j before =>
      obtain ⟨rfl, htail⟩ := List.cons.inj hsplit
      obtain ⟨x, hx, hleft, hnew⟩ := ih htail
      have hout := Finset.mem_sdiff.mp hleft
      refine ⟨x, hx, hout.1, ?_⟩
      rw [covered_cons, Finset.mem_union]
      exact not_or.mpr ⟨hout.2, hnew⟩

theorem card_le_share {cover : List κ} {most : ℕ} (h : left ⊆ covered covers cover)
    (hmost : ∀ k, (covers k ∩ left).card ≤ most) : left.card ≤ cover.length * most := by
  induction cover generalizing left with
  | nil =>
    have hnone : left = ∅ := Finset.subset_empty.mp h
    simp [hnone]
  | cons k cover ih =>
    have hrest : left \ covers k ⊆ covered covers cover := by
      intro x hx
      have hout := Finset.mem_sdiff.mp hx
      exact (Finset.mem_union.mp (h hout.1)).resolve_left hout.2
    have hless : ∀ j, (covers j ∩ (left \ covers k)).card ≤ most := fun j =>
      (Finset.card_le_card (Finset.inter_subset_inter_left Finset.sdiff_subset)).trans (hmost j)
    have hcount := Finset.card_inter_add_card_sdiff left (covers k)
    have hone := hmost k
    rw [Finset.inter_comm] at hone
    have htail := ih hrest hless
    rw [List.length_cons, Nat.add_mul, Nat.one_mul]
    omega

theorem harmonic_nonneg (n : ℕ) : 0 ≤ harmonic n := by
  induction n with
  | zero => exact le_rfl
  | succ n ih =>
    rw [harmonic_succ]
    positivity

theorem harmonic_add (n m : ℕ) : harmonic n + m / (n + m : ℕ) ≤ harmonic (n + m) := by
  induction m with
  | zero => simp
  | succ m ih =>
    have hshrink : (m : ℚ) / (n + m + 1 : ℕ) ≤ m / (n + m : ℕ) := by
      rcases Nat.eq_zero_or_pos m with rfl | hm
      · simp
      · apply div_le_div_of_nonneg_left (Nat.cast_nonneg m)
        · exact_mod_cast (by omega : 0 < n + m)
        · exact_mod_cast (by omega : n + m ≤ n + m + 1)
    have hterm : ((m + 1 : ℕ) : ℚ) / (n + m + 1 : ℕ) =
        m / (n + m + 1 : ℕ) + (↑(n + m + 1))⁻¹ := by
      rw [Nat.cast_succ m, add_div, one_div]
    have hstep : harmonic (n + m + 1) = harmonic (n + m) + (↑(n + m + 1))⁻¹ := harmonic_succ _
    change harmonic n + ((m + 1 : ℕ) : ℚ) / (n + m + 1 : ℕ) ≤ harmonic (n + m + 1)
    rw [hterm, hstep]
    linarith

theorem harmonic_pays {sets n m : ℕ} (hm : 0 < m) (h : n + m ≤ sets * m) :
    1 + sets * harmonic n ≤ sets * harmonic (n + m) := by
  have hall : (0 : ℚ) < (n + m : ℕ) := by exact_mod_cast (by omega : 0 < n + m)
  have hshare : (1 : ℚ) ≤ sets * (m / (n + m : ℕ)) := by
    rw [← mul_div_assoc, le_div_iff₀ hall, one_mul]
    exact_mod_cast h
  have hsum := mul_le_mul_of_nonneg_left (harmonic_add n m) (Nat.cast_nonneg (α := ℚ) sets)
  rw [mul_add] at hsum
  linarith

theorem Run.length_le (h : Run covers left chosen after) {cover : List κ}
    (hcover : left ⊆ covered covers cover) :
    (chosen.length : ℚ) ≤ cover.length * harmonic left.card := by
  induction h with
  | stop left => simpa using mul_nonneg (Nat.cast_nonneg _) (harmonic_nonneg left.card)
  | @take left _ k rest hmost hsome _ ih =>
    have hcount : (left \ covers k).card + (covers k ∩ left).card = left.card := by
      rw [Finset.inter_comm]
      exact Finset.card_sdiff_add_card_inter left (covers k)
    have hshare : (left \ covers k).card + (covers k ∩ left).card ≤
        cover.length * (covers k ∩ left).card := by
      rw [hcount]
      exact card_le_share hcover hmost
    have hpays := harmonic_pays (Finset.card_pos.mpr hsome) hshare
    have htail := ih (Finset.sdiff_subset.trans hcover)
    rw [hcount] at hpays
    rw [List.length_cons, Nat.cast_succ]
    linarith

end GreedyCover
