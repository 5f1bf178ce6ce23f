import Mathlib.Data.List.Nodup
import Mathlib.Data.List.Perm.Subperm
import Mathlib.Logic.Relation
import Mathlib.Tactic.Common

/-! # Chains of parents

Each element has at most one parent. `climb parent n a` is the `n`-th ancestor of `a`, and
`Chain parent a chain` says that the ancestors of `a` end, at the first element of `chain`. -/

namespace ParentChain

variable {α : Type} (parent : α → Option α)

def IsParent (a p : α) : Prop := parent a = some p

def climb : ℕ → α → Option α
  | 0, a => some a
  | n + 1, a => (parent a).bind (climb n)

/-- Nothing is its own ancestor. -/
def Acyclic : Prop := ∀ a, ¬ Relation.TransGen (IsParent parent) a a

/-- From the root down to `a`. -/
inductive Chain : α → List α → Prop
  | root {a : α} : parent a = none → Chain a [a]
  | step {a p : α} {above : List α} : parent a = some p → Chain p above → Chain a (above ++ [a])

variable {parent} {a b c : α} {n m : ℕ}

theorem climb_succ_eq : climb parent (n + 1) a = some b ↔
    ∃ p, parent a = some p ∧ climb parent n p = some b := Option.bind_eq_some_iff

theorem climb_add (hm : climb parent m a = some b) :
    climb parent (m + n) a = climb parent n b := by
  induction m generalizing a with
  | zero =>
    rw [Nat.zero_add, Option.some.inj hm]
  | succ m ih =>
    obtain ⟨p, hp, hclimb⟩ := climb_succ_eq.mp hm
    rw [Nat.add_right_comm, climb, hp, Option.bind_some, ih hclimb]

theorem transGen_iff_climb :
    Relation.TransGen (IsParent parent) a b ↔ ∃ n, climb parent (n + 1) a = some b := by
  constructor
  · intro h
    induction h using Relation.TransGen.head_induction_on with
    | single hp => exact ⟨0, climb_succ_eq.mpr ⟨b, hp, rfl⟩⟩
    | head hp _ ih =>
      obtain ⟨n, hn⟩ := ih
      exact ⟨n + 1, climb_succ_eq.mpr ⟨_, hp, hn⟩⟩
  · rintro ⟨n, hn⟩
    induction n generalizing a with
    | zero =>
      obtain ⟨p, hp, hclimb⟩ := climb_succ_eq.mp hn
      exact .single (Option.some.inj hclimb ▸ hp)
    | succ n ih =>
      obtain ⟨p, hp, hclimb⟩ := climb_succ_eq.mp hn
      exact .head hp (ih hclimb)

theorem Acyclic.climb_unique (h : Acyclic parent) (hn : climb parent n a = some b)
    (hm : climb parent m a = some b) : n = m := by
  have hnot : ∀ {i j}, climb parent i a = some b → climb parent j a = some b → ¬ i < j := by
    intro i j hi hj hlt
    obtain ⟨k, rfl⟩ := Nat.exists_eq_add_of_lt hlt
    rw [Nat.add_assoc, climb_add hi] at hj
    exact h b (transGen_iff_climb.mpr ⟨k, hj⟩)
  exact Nat.le_antisymm (Nat.not_lt.mp (hnot hm hn)) (Nat.not_lt.mp (hnot hn hm))

theorem Chain.unique {chain chain' : List α} (h : Chain parent a chain)
    (h' : Chain parent a chain') : chain = chain' := by
  induction h generalizing chain' with
  | root hroot =>
    cases h' with
    | root => rfl
    | step hp => exact absurd (hroot.symm.trans hp) (Option.some_ne_none _).symm
  | step hp _ ih =>
    cases h' with
    | root hroot => exact absurd (hroot.symm.trans hp) (Option.some_ne_none _).symm
    | step hp' habove =>
      obtain rfl := Option.some.inj (hp.symm.trans hp')
      rw [ih habove]

theorem Chain.last {chain : List α} (h : Chain parent a chain) : ∃ above, chain = above ++ [a] := by
  cases h with
  | root => exact ⟨[], rfl⟩
  | step => exact ⟨_, rfl⟩

theorem Chain.of_mem {chain : List α} (h : Chain parent a chain) (hb : b ∈ chain) :
    ∃ chain', Chain parent b chain' ∧ chain' <+: chain := by
  induction h with
  | root hroot =>
    rw [List.mem_singleton.mp hb]
    exact ⟨_, .root hroot, List.prefix_refl _⟩
  | step hp habove ih =>
    rcases List.mem_append.mp hb with hb | hb
    · obtain ⟨chain', hchain, hle⟩ := ih hb
      exact ⟨chain', hchain, hle.trans (List.prefix_append _ _)⟩
    · rw [List.mem_singleton.mp hb]
      exact ⟨_, .step hp habove, List.prefix_refl _⟩

theorem Chain.nodup {chain : List α} (h : Chain parent a chain) : chain.Nodup := by
  induction h with
  | root => exact List.nodup_singleton _
  | @step a p above hp habove ih =>
    refine List.nodup_append.mpr ⟨ih, List.nodup_singleton _, fun b hb c hc heq => ?_⟩
    rw [heq, List.mem_singleton.mp hc] at hb
    obtain ⟨chain', hchain, hle⟩ := habove.of_mem hb
    have hsame := hchain.unique (.step hp habove)
    have hlength := hle.length_le
    rw [hsame, List.length_append, List.length_singleton] at hlength
    omega

theorem exists_chain {l : List α} (hclosed : ∀ a ∈ l, ∀ p, parent a = some p → p ∈ l)
    (hacyclic : ∀ a ∈ l, ¬ Relation.TransGen (IsParent parent) a a) (ha : a ∈ l) :
    ∃ chain, Chain parent a chain := by
  -- `seen` are the elements climbed from, and `n` is the number of those that are left
  have hclimb : ∀ (n : ℕ) (a : α) (seen : List α), a ∈ l → seen.Nodup → seen ⊆ l →
      (∀ s ∈ seen, Relation.TransGen (IsParent parent) s a) → l.length ≤ seen.length + n →
      ∃ chain, Chain parent a chain := by
    intro n
    induction n with
    | zero =>
      intro a seen ha hnodup hsub hbelow hlength
      have hfresh : a ∉ seen := fun hmem => hacyclic a ha (hbelow a hmem)
      have hle := (List.subperm_of_subset (List.nodup_cons.mpr ⟨hfresh, hnodup⟩)
        (List.cons_subset.mpr ⟨ha, hsub⟩)).length_le
      rw [List.length_cons] at hle
      omega
    | succ n ih =>
      intro a seen ha hnodup hsub hbelow hlength
      have hfresh : a ∉ seen := fun hmem => hacyclic a ha (hbelow a hmem)
      cases hp : parent a with
      | none => exact ⟨[a], .root hp⟩
      | some p =>
        have habove : ∀ s ∈ a :: seen, Relation.TransGen (IsParent parent) s p :=
          List.forall_mem_cons.mpr ⟨.single hp, fun s hs => (hbelow s hs).tail hp⟩
        obtain ⟨above, hchain⟩ := ih p (a :: seen) (hclosed a ha p hp)
          (List.nodup_cons.mpr ⟨hfresh, hnodup⟩) (List.cons_subset.mpr ⟨ha, hsub⟩) habove
          (by rw [List.length_cons]; omega)
        exact ⟨above ++ [a], .step hp hchain⟩
  exact hclimb l.length a [] ha List.nodup_nil (List.nil_subset l)
    (fun _ hs => absurd hs List.not_mem_nil) (Nat.le_add_left _ _)

theorem Chain.forall_mem {P : α → Prop} {chain : List α} (h : Chain parent a chain)
    (hstep : ∀ b p, P b → parent b = some p → P p) (ha : P a) : ∀ b ∈ chain, P b := by
  induction h with
  | root => exact fun b hb => List.mem_singleton.mp hb ▸ ha
  | step hp _ ih =>
    refine List.forall_mem_append.mpr ⟨ih (hstep _ _ ha hp), ?_⟩
    exact fun b hb => List.mem_singleton.mp hb ▸ ha

end ParentChain
