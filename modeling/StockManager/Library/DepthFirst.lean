import Mathlib.Data.List.Nodup
import Mathlib.Data.List.Pairwise
import Mathlib.Data.Finset.Card
import Mathlib.Data.Prod.Lex
import Mathlib.Logic.Relation
import Mathlib.Tactic.Common

/-! # Depth-first order

`Visits children stack out`: the nodes of `stack`, one after the other and each before what
is under it, are `out`. Over a forest the walk with an explicit stack and a set of the keys
it has seen yields just that. -/

namespace DepthFirst

variable {α β κ : Type}

section Visits

variable (children : α → List α)

inductive Visits : List α → List α → Prop
  | nil : Visits [] []
  | cons {a : α} {stack below after : List α} : Visits (children a) below → Visits stack after →
      Visits (a :: stack) (a :: (below ++ after))

def IsChild (b a : α) : Prop := b ∈ children a

def Under : α → α → Prop := Relation.ReflTransGen (IsChild children)

def Apart (a b : α) : Prop := ¬ Under children a b ∧ ¬ Under children b a

def SingleParent : Prop := Relator.RightUnique (IsChild children)

end Visits

variable {children : α → List α} {a b : α} {stack out : List α}

theorem Visits.unique {out' : List α} (h : Visits children stack out)
    (h' : Visits children stack out') : out = out' := by
  induction h generalizing out' with
  | nil =>
    cases h'
    rfl
  | cons _ _ ihbelow ihafter =>
    cases h' with
    | cons hbelow hafter => rw [ihbelow hbelow, ihafter hafter]

theorem Visits.sublist (h : Visits children stack out) : stack.Sublist out := by
  induction h with
  | nil => exact List.Sublist.refl _
  | cons _ _ _ ih => exact List.Sublist.cons_cons _ (ih.trans (List.sublist_append_right _ _))

theorem Visits.mem_iff (h : Visits children stack out) :
    b ∈ out ↔ ∃ a ∈ stack, Under children b a := by
  induction h with
  | nil => simp
  | @cons a stack below after _ _ ihbelow ihafter =>
    have hunder : Under children b a ↔ b = a ∨ ∃ c ∈ children a, Under children b c :=
      Relation.ReflTransGen.cases_tail_iff _ _ _ |>.trans
        ⟨fun h => h.imp Eq.symm fun ⟨c, hc, hca⟩ => ⟨c, hca, hc⟩,
          fun h => h.imp Eq.symm fun ⟨c, hca, hc⟩ => ⟨c, hc, hca⟩⟩
    rw [List.mem_cons, List.mem_append, ihbelow, ihafter, List.exists_mem_cons_iff, hunder, or_assoc]

theorem Visits.forall_mem {P : α → Prop} (h : Visits children stack out)
    (hstep : ∀ a, P a → ∀ b ∈ children a, P b) (hstack : ∀ a ∈ stack, P a) : ∀ b ∈ out, P b := by
  induction h with
  | nil => exact hstack
  | cons _ _ ihbelow ihafter =>
    rw [List.forall_mem_cons] at hstack
    rw [List.forall_mem_cons, List.forall_mem_append]
    exact ⟨hstack.1, ihbelow (hstep _ hstack.1), ihafter hstack.2⟩

theorem Visits.block (h : Visits children stack out) (ha : a ∈ out) :
    ∃ before below after, out = before ++ a :: (below ++ after) ∧
      Visits children (children a) below := by
  induction h with
  | nil => exact absurd ha List.not_mem_nil
  | @cons c stack below after hbelow _ ihbelow ihafter =>
    rw [List.mem_cons, List.mem_append] at ha
    rcases ha with rfl | ha | ha
    · exact ⟨[], below, after, rfl, hbelow⟩
    · obtain ⟨first, under, later, rfl, hunder⟩ := ihbelow ha
      exact ⟨c :: first, under, later ++ after, by simp, hunder⟩
    · obtain ⟨first, under, later, rfl, hunder⟩ := ihafter ha
      exact ⟨c :: (below ++ first), under, later, by simp, hunder⟩

theorem Visits.not_mem_below {below : List α} (h : Visits children (children a) below) :
    a ∉ below := by
  intro ha
  obtain ⟨before, below', after, heq, hbelow⟩ := h.block ha
  have hsame := h.unique hbelow
  have hlength := congrArg List.length heq
  simp only [List.length_append, List.length_cons, hsame] at hlength
  omega

theorem Visits.map {childrenOf : β → List β} {f : β → α} {stack out : List β}
    (hf : ∀ x, children (f x) = (childrenOf x).map f) (h : Visits childrenOf stack out) :
    Visits children (stack.map f) (out.map f) := by
  induction h with
  | nil => exact Visits.nil
  | cons _ _ ihbelow ihafter =>
    rw [List.map_cons, List.map_cons, List.map_append]
    exact Visits.cons (by rw [hf]; exact ihbelow) ihafter

theorem exists_visits {P : ℕ → α → Prop} {bound : ℕ} (hbound : ∀ n a, P n a → n ≤ bound)
    (hstep : ∀ n a, P n a → ∀ b ∈ children a, P (n + 1) b) (hstack : ∀ a ∈ stack, ∃ n, P n a) :
    ∃ out, Visits children stack out := by
  have hdeep : ∀ (k : ℕ) (stack : List α), (∀ a ∈ stack, ∃ n, P n a ∧ bound < n + k) →
      ∃ out, Visits children stack out := by
    intro k
    induction k with
    | zero =>
      intro stack hlow
      cases stack with
      | nil => exact ⟨[], Visits.nil⟩
      | cons a stack =>
        obtain ⟨n, ha, hn⟩ := hlow a List.mem_cons_self
        have := hbound n a ha
        omega
    | succ k ihk =>
      intro stack hlow
      induction stack with
      | nil => exact ⟨[], Visits.nil⟩
      | cons a stack ih =>
        rw [List.forall_mem_cons] at hlow
        obtain ⟨⟨n, ha, hn⟩, hrest⟩ := hlow
        obtain ⟨after, hafter⟩ := ih hrest
        obtain ⟨below, hbelow⟩ := ihk (children a) fun b hb => ⟨n + 1, hstep n a ha b hb, by omega⟩
        exact ⟨_, Visits.cons hbelow hafter⟩
  refine hdeep (bound + 1) stack fun a ha => ?_
  obtain ⟨n, hn⟩ := hstack a ha
  exact ⟨n, hn, by omega⟩

section Forest

variable (hparent : SingleParent children)
include hparent

theorem under_total {c : α} (ha : Under children c a) (hb : Under children c b) :
    Under children a b ∨ Under children b a :=
  Relation.ReflTransGen.total_of_right_unique hparent ha hb

theorem apart_children {c d : α} {below : List α} (h : Visits children (children a) below)
    (hc : c ∈ children a) (hd : d ∈ children a) (hne : c ≠ d) : Apart children c d := by
  have hnot : ∀ x ∈ children a, ∀ y ∈ children a, x ≠ y → ¬ Under children x y := by
    intro x hx y hy hxy hunder
    rcases Relation.ReflTransGen.cases_head hunder with heq | ⟨p, hp, hrest⟩
    · exact hxy heq
    · have hpa : p = a := hparent hp hx
      exact h.not_mem_below (h.mem_iff.mpr ⟨y, hy, hpa ▸ hrest⟩)
  exact ⟨hnot c hc d hd hne, hnot d hd c hc (Ne.symm hne)⟩

theorem Visits.nodup (hchildren : ∀ a, (children a).Nodup) (h : Visits children stack out)
    (hstack : stack.Pairwise (Apart children)) : out.Nodup := by
  induction h with
  | nil => exact List.nodup_nil
  | @cons a stack below after hbelow hafter ihbelow ihafter =>
    rw [List.pairwise_cons] at hstack
    have hsiblings : (children a).Pairwise (Apart children) :=
      (hchildren a).imp_of_mem fun hc hd hne => apart_children hparent hbelow hc hd hne
    have hnodup := List.nodup_append.mpr ⟨ihbelow hsiblings, ihafter hstack.2, ?_⟩
    · refine List.nodup_cons.mpr ⟨fun ha => ?_, hnodup⟩
      rcases List.mem_append.mp ha with ha | ha
      · exact hbelow.not_mem_below ha
      · obtain ⟨r, hr, hunder⟩ := hafter.mem_iff.mp ha
        exact (hstack.1 r hr).1 hunder
    · intro b hb c hc heq
      obtain ⟨d, hd, hbd⟩ := hbelow.mem_iff.mp hb
      obtain ⟨r, hr, hcr⟩ := hafter.mem_iff.mp hc
      have hba : Under children b a := hbd.tail hd
      rcases under_total hparent hba (heq ▸ hcr) with hle | hle
      · exact (hstack.1 r hr).1 hle
      · exact (hstack.1 r hr).2 hle

end Forest

section Unmet

variable [DecidableEq κ]

/-- The number of keys not seen. -/
def unmet (keys seen : List κ) : ℕ := (keys.toFinset \ seen.toFinset).card

variable {keys seen seen' : List κ} {k : κ}

theorem unmet_le (h : seen ⊆ seen') : unmet keys seen' ≤ unmet keys seen := by
  refine Finset.card_le_card (Finset.sdiff_subset_sdiff (Finset.Subset.refl _) fun x hx => ?_)
  exact List.mem_toFinset.mpr (h (List.mem_toFinset.mp hx))

theorem unmet_add_le {fresh : List κ} (hnodup : fresh.Nodup) (hkeys : ∀ x ∈ fresh, x ∈ keys)
    (hnew : ∀ x ∈ fresh, x ∉ seen) :
    unmet keys (seen ++ fresh) + fresh.length ≤ unmet keys seen := by
  rw [← List.toFinset_card_of_nodup hnodup, unmet, unmet, ← Finset.card_union_of_disjoint]
  · refine Finset.card_le_card fun x hx => ?_
    simp only [Finset.mem_union, Finset.mem_sdiff, List.mem_toFinset, List.mem_append] at hx ⊢
    rcases hx with hx | hx
    · exact ⟨hx.1, fun hmem => hx.2 (.inl hmem)⟩
    · exact ⟨hkeys x hx, hnew x hx⟩
  · refine Finset.disjoint_left.mpr fun x hx hfresh => ?_
    simp only [Finset.mem_sdiff, List.mem_toFinset, List.mem_append] at hx hfresh
    exact hx.2 (.inr hfresh)

theorem unmet_lt (hk : k ∈ keys) (hseen : k ∉ seen) (hk' : k ∈ seen') (h : seen ⊆ seen') :
    unmet keys seen' < unmet keys seen := by
  have hone := @unmet_add_le _ _ keys seen _ (List.nodup_singleton k)
    (fun x hx => List.mem_singleton.mp hx ▸ hk) (fun x hx => List.mem_singleton.mp hx ▸ hseen)
  have hmore : unmet keys seen' ≤ unmet keys (seen ++ [k]) :=
    unmet_le (List.append_subset.mpr ⟨h, fun x hx => List.mem_singleton.mp hx ▸ hk'⟩)
  rw [List.length_singleton] at hone
  omega

end Unmet

/-- What the walk reads: the keys of the nodes, and the children of a node, which has none where
its key is not one of them. -/
structure Graph (κ α : Type) where
  keys : List κ
  key : α → κ
  children : α → List α
  leaf : ∀ a, key a ∉ keys → children a = []

variable [DecidableEq κ] (G : Graph κ α)

/-- A node whose key was seen is passed over. -/
def Graph.walk : List α → List κ → List α
  | [], _ => []
  | a :: stack, seen =>
    if G.key a ∈ seen then walk stack seen
    else a :: walk (G.children a ++ stack) (G.key a :: seen)
termination_by stack seen => (unmet G.keys seen, stack.length)
decreasing_by
  · exact Prod.Lex.right _ (Nat.lt_succ_self _)
  · by_cases hk : G.key a ∈ G.keys
    · exact Prod.Lex.left _ _ (unmet_lt hk ‹_› List.mem_cons_self (List.subset_cons_self _ _))
    · rw [G.leaf a hk]
      have hle : unmet G.keys (G.key a :: seen) ≤ unmet G.keys seen :=
        unmet_le (List.subset_cons_self _ _)
      rcases Nat.lt_or_eq_of_le hle with hlt | heq
      · exact Prod.Lex.left _ _ hlt
      · rw [heq]
        exact Prod.Lex.right _ (Nat.lt_succ_self _)

variable {G} {stack out : List α} {seen : List κ}

theorem Graph.walk_append (h : Visits G.children stack out) (hnodup : (out.map G.key).Nodup)
    (hfresh : ∀ b ∈ out, G.key b ∉ seen) (rest : List α) :
    G.walk (stack ++ rest) seen = out ++ G.walk rest ((out.map G.key).reverse ++ seen) := by
  induction h generalizing seen rest with
  | nil => rfl
  | @cons a stack below after _ _ ihbelow ihafter =>
    rw [List.map_cons, List.map_append, List.nodup_cons, List.nodup_append] at hnodup
    obtain ⟨ha, hbelow, hafter, hdisjoint⟩ := hnodup
    rw [List.forall_mem_cons, List.forall_mem_append] at hfresh
    have hfirst := @ihbelow (G.key a :: seen) hbelow (fun b hb => ?_) (stack ++ rest)
    · have hlast := @ihafter ((below.map G.key).reverse ++ G.key a :: seen) hafter
        (fun b hb => ?_) rest
      · rw [List.cons_append, Graph.walk, if_neg hfresh.1, hfirst, hlast]
        simp [List.append_assoc]
      · rw [List.mem_append, List.mem_reverse, List.mem_cons]
        rintro (hmem | hmem | hmem)
        · exact hdisjoint _ hmem _ (List.mem_map_of_mem hb) rfl
        · exact ha (List.mem_append.mpr (.inr (hmem ▸ List.mem_map_of_mem hb)))
        · exact hfresh.2.2 b hb hmem
    · rw [List.mem_cons]
      rintro (hmem | hmem)
      · exact ha (List.mem_append.mpr (.inl (hmem ▸ List.mem_map_of_mem hb)))
      · exact hfresh.2.1 b hb hmem

theorem Graph.walk_of_visits (h : Visits G.children stack out) (hnodup : (out.map G.key).Nodup) :
    G.walk stack [] = out := by
  have hall := @Graph.walk_append _ _ _ G stack out [] h hnodup (fun _ _ => List.not_mem_nil) []
  rwa [List.append_nil, Graph.walk, List.append_nil] at hall

end DepthFirst
