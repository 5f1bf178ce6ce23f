import Mathlib.Algebra.BigOperators.Group.List.Basic
import Mathlib.Algebra.Order.BigOperators.Group.List
import Mathlib.Data.Int.Cast.Lemmas
import Mathlib.Tactic.Common

/-! # Sums over the rows that match

`tally p f rows` is `SELECT coalesce(sum(f), 0) … WHERE p`: the sum of `f` over
the rows of a table that satisfy `p`. -/

variable {α β M : Type}

def tally [AddCommMonoid M] (p : α → Prop) [DecidablePred p] (f : α → M) (rows : List α) : M :=
  ((rows.filter p).map f).sum

namespace Tally

section Monoid

variable [AddCommMonoid M] (p q : α → Prop) [DecidablePred p] [DecidablePred q] (f g : α → M)

@[simp] theorem tally_nil : tally p f [] = 0 := rfl

theorem tally_cons (r : α) (rows : List α) :
    tally p f (r :: rows) = (if p r then f r else 0) + tally p f rows := by
  unfold tally
  by_cases h : p r
  · simp [h]
  · simp [h]

@[simp] theorem tally_append (a b : List α) : tally p f (a ++ b) = tally p f a + tally p f b := by
  simp [tally, List.filter_append]

theorem tally_singleton (r : α) : tally p f [r] = if p r then f r else 0 := by
  rw [tally_cons, tally_nil, add_zero]

theorem tally_congr {rows : List α} (hp : ∀ r ∈ rows, (p r ↔ q r))
    (hf : ∀ r ∈ rows, p r → f r = g r) : tally p f rows = tally q g rows := by
  induction rows with
  | nil => rfl
  | cons r rows ih =>
    have hrest := ih (fun x hx => hp x (List.mem_cons_of_mem _ hx))
      (fun x hx => hf x (List.mem_cons_of_mem _ hx))
    have hpr := hp r (List.mem_cons_self ..)
    rw [tally_cons, tally_cons, hrest]
    by_cases h : p r
    · rw [if_pos h, if_pos (hpr.mp h), hf r (List.mem_cons_self ..) h]
    · rw [if_neg h, if_neg (fun hq => h (hpr.mpr hq))]

theorem tally_eq_zero {rows : List α} (h : ∀ r ∈ rows, ¬ p r) : tally p f rows = 0 := by
  have hnil : rows.filter p = [] := by
    rw [List.filter_eq_nil_iff]
    simpa using h
  rw [tally, hnil]
  rfl

theorem tally_map (t : β → α) (rows : List β) :
    tally p f (rows.map t) = tally (fun r => p (t r)) (fun r => f (t r)) rows := by
  induction rows with
  | nil => rfl
  | cons r rows ih => rw [List.map_cons, tally_cons, tally_cons, ih]

theorem tally_split (rows : List α) :
    tally p f rows = tally (fun r => p r ∧ q r) f rows + tally (fun r => p r ∧ ¬ q r) f rows := by
  induction rows with
  | nil => simp
  | cons r rows ih =>
    rw [tally_cons, tally_cons, tally_cons, ih]
    by_cases hp : p r
    · by_cases hq : q r
      · simp [hp, hq, add_assoc]
      · simp [hp, hq, add_left_comm]
    · simp [hp]

theorem filter_key_eq {κ : Type} [DecidableEq κ] (key : α → κ) {rows : List α} {r : α}
    (hnodup : (rows.map key).Nodup) (hr : r ∈ rows) :
    rows.filter (fun x => key x = key r) = [r] := by
  induction rows with
  | nil => cases hr
  | cons x rows ih =>
    obtain ⟨hx, hrest⟩ := List.nodup_cons.mp hnodup
    rcases List.mem_cons.mp hr with rfl | hr
    · have hnone : rows.filter (fun y => key y = key r) = [] := by
        rw [List.filter_eq_nil_iff]
        intro y hy heq
        have hsame : key y = key r := of_decide_eq_true heq
        exact hx (hsame ▸ List.mem_map_of_mem hy)
      rw [List.filter_cons_of_pos (by simp), hnone]
    · have hne : key x ≠ key r := by
        intro heq
        exact hx (heq.symm ▸ List.mem_map_of_mem hr)
      rw [List.filter_cons_of_neg (by simpa using hne), ih hrest hr]

theorem tally_key {κ : Type} [DecidableEq κ] (key : α → κ) {rows : List α} {r : α}
    (hnodup : (rows.map key).Nodup) (hr : r ∈ rows) :
    tally (fun x => key x = key r) f rows = f r := by
  rw [tally, filter_key_eq key hnodup hr, List.map_singleton, List.sum_singleton]

theorem tally_filter (rows : List α) :
    tally p f (rows.filter q) = tally (fun r => q r ∧ p r) f rows := by
  induction rows with
  | nil => rfl
  | cons r rows ih =>
    rw [tally_cons, ← ih]
    by_cases hq : q r
    · rw [List.filter_cons_of_pos (by simpa using hq), tally_cons]
      simp [hq]
    · rw [List.filter_cons_of_neg (by simpa using hq)]
      simp [hq]

theorem tally_all {rows : List α} (h : ∀ r ∈ rows, p r) : tally p f rows = (rows.map f).sum := by
  rw [tally, List.filter_eq_self.mpr (by simpa using h)]

theorem tally_flatMap {γ : Type} (g : γ → List α) (l : List γ) :
    tally p f (l.flatMap g) = (l.map fun c => tally p f (g c)).sum := by
  induction l with
  | nil => rfl
  | cons c l ih => rw [List.flatMap_cons, tally_append, ih, List.map_cons, List.sum_cons]

theorem tally_sub {G : Type} [AddCommGroup G] (f g : α → G) (rows : List α) :
    tally p (fun r => f r - g r) rows = tally p f rows - tally p g rows := by
  induction rows with
  | nil => exact (sub_zero 0).symm
  | cons r rows ih =>
    rw [tally_cons, tally_cons, tally_cons, ih]
    split
    next => exact sub_add_sub_comm ..
    next => rw [zero_add, zero_add, zero_add]

theorem tally_filterMap {γ : Type} (t : α → Option γ) (q : γ → Prop) [DecidablePred q] (g : γ → M)
    {rows : List α} (hsome : ∀ r ∈ rows, ∀ c, t r = some c → (q c ↔ p r) ∧ g c = f r)
    (hnone : ∀ r ∈ rows, t r = none → p r → f r = 0) :
    tally q g (rows.filterMap t) = tally p f rows := by
  induction rows with
  | nil => rfl
  | cons r rows ih =>
    have hrest := ih (fun x hx => hsome x (List.mem_cons_of_mem _ hx))
      fun x hx => hnone x (List.mem_cons_of_mem _ hx)
    rw [tally_cons, ← hrest]
    cases ht : t r with
    | none =>
      have hzero : (if p r then f r else 0) = 0 := by
        split
        next hp => exact hnone r (List.mem_cons_self ..) ht hp
        next => rfl
      rw [List.filterMap_cons_none ht, hzero, zero_add]
    | some c =>
      obtain ⟨hqp, hgf⟩ := hsome r (List.mem_cons_self ..) c ht
      rw [List.filterMap_cons_some ht, tally_cons, hgf]
      simp only [hqp]

theorem tally_perm {a b : List α} (h : a.Perm b) : tally p f a = tally p f b :=
  ((h.filter _).map f).sum_eq

theorem tally_fiberwise {κ : Type} [DecidableEq κ] (key : α → κ) {keys : List κ}
    (hnodup : keys.Nodup) (rows : List α) :
    (keys.map fun k => tally (fun r => p r ∧ key r = k) f rows).sum =
      tally (fun r => p r ∧ key r ∈ keys) f rows := by
  induction keys with
  | nil => simp [tally_eq_zero]
  | cons k keys ih =>
    have hk : k ∉ keys := (List.nodup_cons.mp hnodup).1
    rw [List.map_cons, List.sum_cons, ih (List.nodup_cons.mp hnodup).2,
      tally_split (fun r => p r ∧ key r ∈ k :: keys) (fun r => key r = k)]
    congr 1
    · apply tally_congr
      · intro r _
        constructor
        · rintro ⟨hp, hkey⟩
          exact ⟨⟨hp, by simp [hkey]⟩, hkey⟩
        · rintro ⟨⟨hp, _⟩, hkey⟩
          exact ⟨hp, hkey⟩
      · intro r _ _
        rfl
    · apply tally_congr
      · intro r _
        constructor
        · rintro ⟨hp, hmem⟩
          exact ⟨⟨hp, List.mem_cons_of_mem _ hmem⟩, fun hkey => hk (hkey ▸ hmem)⟩
        · rintro ⟨⟨hp, hmem⟩, hne⟩
          exact ⟨hp, (List.mem_cons.mp hmem).resolve_left hne⟩
      · intro r _ _
        rfl

theorem tally_groups {κ : Type} [DecidableEq κ] (key : α → κ) {keys : List κ}
    (hnodup : keys.Nodup) {rows : List α} (hall : ∀ r ∈ rows, p r → key r ∈ keys) :
    (keys.map fun k => tally (fun r => p r ∧ key r = k) f rows).sum = tally p f rows := by
  rw [tally_fiberwise p f key hnodup]
  exact tally_congr _ _ _ _ (fun r hr => ⟨And.left, fun hp => ⟨hp, hall r hr hp⟩⟩) fun _ _ _ => rfl

end Monoid

section Ordered

variable [AddCommMonoid M] [LinearOrder M] [IsOrderedAddMonoid M]
  (p : α → Prop) [DecidablePred p] (f : α → M)

theorem tally_nonneg {rows : List α} (h : ∀ r ∈ rows, p r → 0 ≤ f r) : 0 ≤ tally p f rows := by
  apply List.sum_nonneg
  intro x hx
  obtain ⟨r, hr, rfl⟩ := List.mem_map.mp hx
  have hmem := List.mem_filter.mp hr
  exact h r hmem.1 (by simpa using hmem.2)

theorem le_tally {rows : List α} (h : ∀ r ∈ rows, p r → 0 ≤ f r) {r : α} (hr : r ∈ rows)
    (hp : p r) : f r ≤ tally p f rows := by
  have hterm : f r ∈ (rows.filter fun x => p x).map f :=
    List.mem_map_of_mem (List.mem_filter.mpr ⟨hr, by simpa using hp⟩)
  apply List.single_le_sum _ _ hterm
  intro x hx
  obtain ⟨y, hy, rfl⟩ := List.mem_map.mp hx
  have hmem := List.mem_filter.mp hy
  exact h y hmem.1 (by simpa using hmem.2)

theorem tally_mono {q : α → Prop} [DecidablePred q] {rows : List α} (h : ∀ r ∈ rows, 0 ≤ f r)
    (hpq : ∀ r ∈ rows, p r → q r) : tally p f rows ≤ tally q f rows := by
  have hsame : tally (fun r => q r ∧ p r) f rows = tally p f rows := by
    apply tally_congr
    · intro r hr
      exact ⟨fun hqp => hqp.2, fun hp => ⟨hpq r hr hp, hp⟩⟩
    · intro r _ _
      rfl
  rw [tally_split q p, hsame]
  have hrest : 0 ≤ tally (fun r => q r ∧ ¬ p r) f rows :=
    tally_nonneg _ _ fun r hr _ => h r hr
  exact le_add_of_nonneg_right hrest

theorem tally_keys_le {κ : Type} [DecidableEq κ] (key : α → κ) {keys : List κ}
    (hnodup : keys.Nodup) {rows : List α} (h : ∀ r ∈ rows, 0 ≤ f r) :
    (keys.map fun k => tally (fun r => p r ∧ key r = k) f rows).sum ≤ tally p f rows := by
  rw [tally_fiberwise p f key hnodup]
  exact tally_mono _ _ h fun _ _ hp => hp.1

theorem exists_pos_of_tally_pos {rows : List α} (h : 0 < tally p f rows) :
    ∃ r ∈ rows, p r ∧ 0 < f r := by
  induction rows with
  | nil => exact absurd h (lt_irrefl _)
  | cons r rows ih =>
    rw [tally_cons] at h
    by_cases hr : p r ∧ 0 < f r
    · exact ⟨r, List.mem_cons_self .., hr⟩
    · have hle : (if p r then f r else 0) ≤ 0 := by
        split
        next hp => exact not_lt.mp fun hpos => hr ⟨hp, hpos⟩
        next => exact le_rfl
      have hrest : 0 < tally p f rows := lt_of_lt_of_le h (add_le_of_nonpos_left hle)
      obtain ⟨x, hx, hpx⟩ := ih hrest
      exact ⟨x, List.mem_cons_of_mem _ hx, hpx⟩

end Ordered

theorem tally_intCast {R : Type} [AddCommGroupWithOne R] (p : α → Prop) [DecidablePred p]
    (f : α → ℤ) (rows : List α) :
    ((tally p f rows : ℤ) : R) = tally p (fun r => (f r : R)) rows := by
  induction rows with
  | nil => exact Int.cast_zero
  | cons r rows ih =>
    rw [tally_cons, tally_cons, Int.cast_add, ih]
    split <;> simp

theorem tally_one (p : α → Prop) [DecidablePred p] (rows : List α) :
    tally p (fun _ => (1 : ℤ)) rows = rows.countP p := by
  induction rows with
  | nil => rfl
  | cons r rows ih =>
    rw [tally_cons, ih, List.countP_cons]
    by_cases hr : p r
    · simp [hr, add_comm]
    · simp [hr]

theorem countP_flatMap_group {κ : Type} {groups : List κ} (g : κ → List α) (p : α → Bool)
    (hnodup : groups.Nodup) {k : κ} (hk : k ∈ groups)
    (hother : ∀ j ∈ groups, j ≠ k → (g j).countP p = 0) :
    (groups.flatMap g).countP p = (g k).countP p := by
  induction groups with
  | nil => cases hk
  | cons j groups ih =>
    rw [List.nodup_cons] at hnodup
    rw [List.flatMap_cons, List.countP_append]
    rcases List.mem_cons.mp hk with rfl | hk
    · have hrest : (groups.flatMap g).countP p = 0 := by
        rw [List.countP_eq_zero]
        intro a ha
        obtain ⟨i, hi, hai⟩ := List.mem_flatMap.mp ha
        have hne : i ≠ k := fun heq => hnodup.1 (heq ▸ hi)
        exact List.countP_eq_zero.mp (hother i (List.mem_cons_of_mem _ hi) hne) a hai
      omega
    · have hne : j ≠ k := fun heq => hnodup.1 (heq ▸ hk)
      rw [hother j (List.mem_cons_self ..) hne, zero_add]
      exact ih hnodup.2 hk fun i hi => hother i (List.mem_cons_of_mem _ hi)

end Tally
