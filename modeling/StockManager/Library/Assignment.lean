import Mathlib.Algebra.BigOperators.Group.Finset.Basic
import Mathlib.Algebra.BigOperators.Group.Finset.Piecewise
import Mathlib.Algebra.Order.BigOperators.Group.Finset
import Mathlib.Data.Finset.Lattice.Basic

/-! # Filling demands from bins

Unit demands of several kinds, and bins of one kind each with a capacity. When
no kind is asked for more than its bins hold, every demand finds a bin. -/

namespace StockManager.Assignment

variable {α β κ : Type} [DecidableEq β] [DecidableEq κ]

/-- Every demand has a bin of its kind, and no bin is used beyond its capacity. -/
structure Fills (kind : α → κ) (bins : κ → Finset β) (cap : β → ℕ) (demands : List α)
    (plan : List (α × β)) : Prop where
  demands : plan.map Prod.fst = demands
  bins : ∀ item ∈ plan, item.2 ∈ bins (kind item.1)
  capacity : ∀ b, plan.countP (fun item => item.2 = b) ≤ cap b

def use (cap : β → ℕ) (b : β) : β → ℕ := Function.update cap b (cap b - 1)

theorem sum_use_self {s : Finset β} {cap : β → ℕ} {b : β} (hb : b ∈ s) (hcap : 0 < cap b) :
    ∑ x ∈ s, use cap b x + 1 = ∑ x ∈ s, cap x := by
  have hrest := Finset.sum_update_of_mem hb cap (cap b - 1)
  have hwhole := Finset.add_sum_erase s cap hb
  rw [Finset.sdiff_singleton_eq_erase] at hrest
  rw [use, hrest]
  omega

theorem sum_use_other {s : Finset β} (cap : β → ℕ) {b : β} (hb : b ∉ s) :
    ∑ x ∈ s, use cap b x = ∑ x ∈ s, cap x :=
  Finset.sum_update_of_notMem hb cap _

omit [DecidableEq κ] in
theorem Fills.cons {kind : α → κ} {bins : κ → Finset β} {cap : β → ℕ} {demands : List α}
    {plan : List (α × β)} {a : α} {b : β} (hb : b ∈ bins (kind a)) (hcap : 0 < cap b)
    (h : Fills kind bins (use cap b) demands plan) :
    Fills kind bins cap (a :: demands) ((a, b) :: plan) := by
  constructor
  case demands => rw [List.map_cons, h.demands]
  case bins =>
    intro item hitem
    rcases List.mem_cons.mp hitem with rfl | hitem
    · exact hb
    · exact h.bins item hitem
  case capacity =>
    intro x
    have hx := h.capacity x
    by_cases hxb : b = x
    · subst hxb
      rw [use, Function.update_self] at hx
      rw [List.countP_cons_of_pos (by simp)]
      omega
    · rw [use, Function.update_of_ne (Ne.symm hxb)] at hx
      rw [List.countP_cons_of_neg (by simpa using hxb)]
      exact hx

theorem exists_fills {kind : α → κ} {bins : κ → Finset β}
    (hdisjoint : ∀ k j b, b ∈ bins k → b ∈ bins j → k = j) {cap : β → ℕ} {demands : List α}
    (henough : ∀ k, demands.countP (fun a => kind a = k) ≤ ∑ b ∈ bins k, cap b) :
    ∃ plan, Fills kind bins cap demands plan := by
  induction demands generalizing cap with
  | nil =>
    refine ⟨[], rfl, ?_, ?_⟩
    · intro item hitem
      cases hitem
    · exact fun b => Nat.zero_le _
  | cons a demands ih =>
    have hsome : 0 < ∑ b ∈ bins (kind a), cap b := by
      have hone := henough (kind a)
      rw [List.countP_cons_of_pos (by simp)] at hone
      omega
    obtain ⟨b, hb, hcap⟩ := Finset.sum_pos_iff.mp hsome
    have hrest : ∀ k, demands.countP (fun a => kind a = k) ≤ ∑ x ∈ bins k, use cap b x := by
      intro k
      have hk := henough k
      by_cases hkind : kind a = k
      · subst hkind
        have hsum := sum_use_self hb hcap
        rw [List.countP_cons_of_pos (by simp)] at hk
        omega
      · have hout : b ∉ bins k := fun hin => hkind (hdisjoint _ _ b hb hin)
        rw [List.countP_cons_of_neg (by simpa using hkind)] at hk
        rwa [sum_use_other cap hout]
    obtain ⟨plan, hplan⟩ := ih hrest
    exact ⟨(a, b) :: plan, hplan.cons hb hcap⟩

end StockManager.Assignment
