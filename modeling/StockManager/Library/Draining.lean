import Mathlib.Algebra.Order.Group.MinMax
import Mathlib.Tactic.Linarith
import StockManager.Library.Tally

/-! # Draining stores in turn

An amount is taken from a list of stores, each giving what it has until the
amount is met. The stores give the smaller of the amount and what they hold
together, and at most the last one that gives is left partly drained. -/

namespace Draining

variable {α M : Type} [AddCommGroup M] [LinearOrder M]

section Drain

variable (size : α → M)

def drain : M → List α → List (α × M)
  | _, [] => []
  | want, a :: stores =>
    if want ≤ 0 then []
    else (a, min want (size a)) :: drain (want - min want (size a)) stores

variable {size}

theorem drain_sublist (want : M) (stores : List α) :
    ((drain size want stores).map Prod.fst).Sublist stores := by
  induction stores generalizing want with
  | nil => exact List.Sublist.refl _
  | cons a stores ih =>
    unfold drain
    split
    next => exact List.nil_sublist _
    next => exact (ih _).cons_cons a

theorem drain_mem {want : M} {stores : List α} {x : α × M} (h : x ∈ drain size want stores) :
    x.1 ∈ stores ∧ x.2 ≤ size x.1 ∧ (0 < size x.1 → 0 < x.2) := by
  induction stores generalizing want with
  | nil => cases h
  | cons a stores ih =>
    unfold drain at h
    split at h
    next => cases h
    next hwant =>
      rcases List.mem_cons.mp h with rfl | h
      · exact ⟨List.mem_cons_self .., min_le_right _ _, fun hpos => lt_min (not_le.mp hwant) hpos⟩
      · obtain ⟨hmem, hrest⟩ := ih h
        exact ⟨List.mem_cons_of_mem _ hmem, hrest⟩

theorem drain_of_kept {want : M} {a : α} (h : min want (size a) ≠ size a) (stores : List α) :
    drain size (want - min want (size a)) stores = [] := by
  have hwant : min want (size a) = want := (min_choice want (size a)).resolve_right h
  rw [hwant, sub_self]
  cases stores with
  | nil => rfl
  | cons b stores => exact if_pos le_rfl

theorem drain_before {R : α → α → Prop} (hasymm : ∀ a b, R a b → ¬ R b a) {stores : List α}
    (hsorted : stores.Pairwise R) {want : M} {a : α} (ha : a ∈ stores) {y : α × M}
    (hy : y ∈ drain size want stores) (hbefore : R a y.1) :
    (a, size a) ∈ drain size want stores := by
  induction stores generalizing want with
  | nil => cases hy
  | cons c stores ih =>
    obtain ⟨hfirst, hrest⟩ := List.pairwise_cons.mp hsorted
    unfold drain at hy ⊢
    split at hy
    next => cases hy
    next hwant =>
      rw [if_neg hwant]
      rcases List.mem_cons.mp hy with rfl | hy
      · rcases List.mem_cons.mp ha with rfl | ha
        · exact absurd hbefore (hasymm _ _ hbefore)
        · exact absurd hbefore (hasymm _ _ (hfirst a ha))
      · rcases List.mem_cons.mp ha with rfl | ha
        · have hall : min want (size a) = size a := by
            by_contra hkept
            rw [drain_of_kept hkept] at hy
            cases hy
          rw [hall]
          exact List.mem_cons_self ..
        · exact List.mem_cons_of_mem _ (ih hrest ha hy)

section Sums

variable [IsOrderedAddMonoid M]

theorem sum_sizes_nonneg {stores : List α} (h : ∀ a ∈ stores, 0 ≤ size a) :
    0 ≤ (stores.map size).sum := by
  apply List.sum_nonneg
  intro x hx
  obtain ⟨a, ha, rfl⟩ := List.mem_map.mp hx
  exact h a ha

theorem drain_sum {stores : List α} (h : ∀ a ∈ stores, 0 ≤ size a) (want : M) :
    ((drain size want stores).map Prod.snd).sum = min (max 0 want) (stores.map size).sum := by
  induction stores generalizing want with
  | nil =>
    rw [List.map_nil, List.sum_nil, min_eq_right (le_max_left _ _)]
    rfl
  | cons a stores ih =>
    have hrest : ∀ b ∈ stores, 0 ≤ size b := fun b hb => h b (List.mem_cons_of_mem _ hb)
    have htotal := sum_sizes_nonneg hrest
    have ha : 0 ≤ size a := h a (List.mem_cons_self ..)
    unfold drain
    rw [List.map_cons, List.sum_cons]
    split
    next hwant =>
      rw [max_eq_left hwant, min_eq_left (add_nonneg ha htotal)]
      rfl
    next hwant =>
      have hpos : 0 < want := not_le.mp hwant
      rw [List.map_cons, List.sum_cons, ih hrest, max_eq_right hpos.le,
        max_eq_right (sub_nonneg.mpr (min_le_left _ _))]
      -- The first store is enough, or it gives all it has.
      rcases le_total want (size a) with hle | hle
      · rw [min_eq_left hle, sub_self, min_eq_left htotal, add_zero,
          min_eq_left (hle.trans (le_add_of_nonneg_right htotal))]
      · rw [min_eq_right hle, ← min_add_add_left, add_sub_cancel]

theorem tally_drain_le {stores : List α} (h : ∀ a ∈ stores, 0 ≤ size a) (want : M)
    (p : α → Prop) [DecidablePred p] :
    tally (fun x => p x.1) Prod.snd (drain size want stores) ≤
      tally p size stores := by
  induction stores generalizing want with
  | nil => exact le_rfl
  | cons a stores ih =>
    have hrest : ∀ b ∈ stores, 0 ≤ size b := fun b hb => h b (List.mem_cons_of_mem _ hb)
    unfold drain
    split
    next => exact Tally.tally_nonneg _ _ fun b hb _ => h b hb
    next =>
      rw [Tally.tally_cons, Tally.tally_cons]
      apply add_le_add _ (ih hrest _)
      split
      next => exact min_le_right _ _
      next => exact le_rfl

end Sums

end Drain

end Draining
