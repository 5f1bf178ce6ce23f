import Mathlib.Algebra.BigOperators.Group.List.Basic
import Mathlib.Algebra.Order.Group.Unbundled.Basic
import Mathlib.Algebra.Order.Monoid.Defs
import Mathlib.Order.Monotone.Defs
import Mathlib.Tactic.Common

/-! # Splitting a whole along its running total

A whole is given out in portions. What has been given out once the portions add
up to `c` is `bound c`; each portion gets the difference its own share makes, so
nothing is lost to rounding. -/

namespace CumulativeSplit

variable {κ M N : Type} [AddCommMonoid M] [AddCommGroup N] [LinearOrder N]

def slices (bound : M → N) (c : M) (previous : N) : List (κ × M) → List (κ × N)
  | [] => []
  | (k, p) :: rest =>
    (k, max 0 (bound (c + p) - previous)) :: slices bound (c + p) (bound (c + p)) rest

def total (portions : List (κ × M)) : M := (portions.map Prod.snd).sum

theorem keys_slices (bound : M → N) (c : M) (previous : N) (portions : List (κ × M)) :
    (slices bound c previous portions).map Prod.fst = portions.map Prod.fst := by
  induction portions generalizing c previous with
  | nil => rfl
  | cons item rest ih =>
    obtain ⟨k, p⟩ := item
    simp only [slices, List.map_cons, ih]

theorem slices_append (bound : M → N) (c : M) (ps qs : List (κ × M)) :
    slices bound c (bound c) (ps ++ qs) = slices bound c (bound c) ps ++
      slices bound (c + total ps) (bound (c + total ps)) qs := by
  induction ps generalizing c with
  | nil => simp [slices, total]
  | cons item rest ih =>
    obtain ⟨k, p⟩ := item
    simp only [List.cons_append, slices, ih (c + p), total, List.map_cons, List.sum_cons,
      add_assoc]

theorem mem_slices [IsOrderedAddMonoid N] [Preorder M] {bound : M → N} (hmono : Monotone bound)
    {c : M} {ps qs : List (κ × M)} {k : κ} {p : M} (hp : c + total ps ≤ c + total ps + p) :
    (k, bound (c + total ps + p) - bound (c + total ps)) ∈
      slices bound c (bound c) (ps ++ (k, p) :: qs) := by
  have hgrow : 0 ≤ bound (c + total ps + p) - bound (c + total ps) := sub_nonneg.mpr (hmono hp)
  rw [slices_append, List.mem_append]
  right
  rw [slices, max_eq_right hgrow]
  exact List.mem_cons_self ..

theorem slices_nonneg (bound : M → N) (c : M) (previous : N) (portions : List (κ × M)) :
    ∀ item ∈ slices bound c previous portions, 0 ≤ item.2 := by
  induction portions generalizing c previous with
  | nil => simp [slices]
  | cons item rest ih =>
    obtain ⟨key, p⟩ := item
    intro slice hslice
    rcases List.mem_cons.mp hslice with rfl | hslice
    · exact le_max_left _ _
    · exact ih _ _ slice hslice

theorem take_slices (bound : M → N) (c : M) (previous : N) (portions : List (κ × M)) (k : ℕ) :
    (slices bound c previous portions).take k = slices bound c previous (portions.take k) := by
  induction portions generalizing c previous k with
  | nil => simp [slices]
  | cons item rest ih =>
    obtain ⟨key, p⟩ := item
    cases k with
    | zero => rfl
    | succ k => simp only [slices, List.take_succ_cons, ih]

section Ordered

variable [IsOrderedAddMonoid N] [PartialOrder M] [IsOrderedAddMonoid M] {bound : M → N}

theorem sum_slices (hmono : Monotone bound) (c : M) {portions : List (κ × M)}
    (hnonneg : ∀ item ∈ portions, 0 ≤ item.2) :
    ((slices bound c (bound c) portions).map Prod.snd).sum =
      bound (c + total portions) - bound c := by
  induction portions generalizing c with
  | nil => simp [slices, total]
  | cons item rest ih =>
    obtain ⟨key, p⟩ := item
    have hp : 0 ≤ p := hnonneg _ (List.mem_cons_self ..)
    have hgrow : 0 ≤ bound (c + p) - bound c := sub_nonneg.mpr (hmono (le_add_of_nonneg_right hp))
    have hrest := ih (c + p) fun item hitem => hnonneg item (List.mem_cons_of_mem _ hitem)
    have htotal : c + total ((key, p) :: rest) = c + p + total rest := by
      simp [total, add_assoc]
    rw [slices, List.map_cons, List.sum_cons, max_eq_right hgrow, hrest, htotal]
    exact sub_add_sub_cancel' _ _ _

end Ordered

end CumulativeSplit
