import Mathlib.Data.Fintype.Basic
import Mathlib.Data.List.Nodup
import Mathlib.Logic.Relation
import Mathlib.Tactic.Common

/-! # Transactions that take exclusive locks

Each transaction takes the locks of its list in order, keeps them until it ends
and passes over those it already holds. -/

namespace LockTable

variable {ι κ : Type} [DecidableEq ι]

/-- How far a transaction is: the number of acquisitions behind it. -/
inductive Phase
  | running (taken : ℕ)
  | waiting (taken : ℕ)
  | ended

def held (locks : ι → List κ) (st : ι → Phase) (i : ι) : List κ :=
  match st i with
  | .running n => (locks i).take n
  | .waiting n => (locks i).take n
  | .ended => []

def start : ι → Phase := fun _ => .running 0

/-- One step of one transaction. A transaction that does not wait may end, by
commit or rollback; a waiting one is served once nobody else holds the lock. -/
inductive Step (locks : ι → List κ) (st : ι → Phase) : (ι → Phase) → Prop
  | acquire {i : ι} {n : ℕ} {l : κ} (hi : st i = .running n ∨ st i = .waiting n)
      (hl : (locks i)[n]? = some l) (hfree : ∀ j ≠ i, l ∉ held locks st j) :
      Step locks st (Function.update st i (.running (n + 1)))
  | block {i j : ι} {n : ℕ} {l : κ} (hi : st i = .running n) (hl : (locks i)[n]? = some l)
      (hj : j ≠ i) (hheld : l ∈ held locks st j) :
      Step locks st (Function.update st i (.waiting n))
  | finish {i : ι} {n : ℕ} (hi : st i = .running n) :
      Step locks st (Function.update st i .ended)

def Reachable (locks : ι → List κ) (st : ι → Phase) : Prop :=
  Relation.ReflTransGen (Step locks) start st

/-- `i` waits for a lock that `j` holds. -/
def WaitsFor (locks : ι → List κ) (st : ι → Phase) (i j : ι) : Prop :=
  ∃ n l, st i = .waiting n ∧ (locks i)[n]? = some l ∧ j ≠ i ∧ l ∈ held locks st j

def Deadlocked (locks : ι → List κ) (st : ι → Phase) : Prop :=
  ∃ i, Relation.TransGen (WaitsFor locks st) i i

section Exclusion

variable {locks : ι → List κ} {st st' : ι → Phase}

theorem held_update_self (i : ι) (p : Phase) : held locks (Function.update st i p) i =
    match p with
    | .running n => (locks i).take n
    | .waiting n => (locks i).take n
    | .ended => [] := by
  rw [held, Function.update_self]

theorem held_update_of_ne {i j : ι} (h : j ≠ i) (p : Phase) :
    held locks (Function.update st i p) j = held locks st j := by
  rw [held, Function.update_of_ne h, held]

def Exclusive (locks : ι → List κ) (st : ι → Phase) : Prop :=
  ∀ i j, i ≠ j → ∀ l ∈ held locks st i, l ∉ held locks st j

theorem Exclusive.update {i : ι} {p : Phase} (h : Exclusive locks st)
    (hp : ∀ l ∈ held locks (Function.update st i p) i, ∀ j ≠ i, l ∉ held locks st j) :
    Exclusive locks (Function.update st i p) := by
  intro a b hab l hla hlb
  by_cases ha : a = i
  · subst ha
    rw [held_update_of_ne (Ne.symm hab)] at hlb
    exact hp l hla b (Ne.symm hab) hlb
  · rw [held_update_of_ne ha] at hla
    by_cases hb : b = i
    · subst hb
      exact hp l hlb a hab hla
    · rw [held_update_of_ne hb] at hlb
      exact h a b hab l hla hlb

theorem mem_take_succ {l k : κ} {n : ℕ} {xs : List κ} (hl : xs[n]? = some l)
    (hk : k ∈ xs.take (n + 1)) : k ∈ xs.take n ∨ k = l := by
  rw [List.take_add_one, hl] at hk
  simpa using hk

theorem exclusive_step (hstep : Step locks st st') (h : Exclusive locks st) :
    Exclusive locks st' := by
  cases hstep with
  | @acquire i n l hi hl hfree =>
    apply h.update
    intro k hk j hj
    rw [held_update_self] at hk
    have hown : held locks st i = (locks i).take n := by
      rcases hi with hi | hi <;> simp [held, hi]
    rcases mem_take_succ hl hk with hk | rfl
    · exact h i j (Ne.symm hj) k (hown ▸ hk)
    · exact hfree j hj
  | @block i j n l hi hl hj hheld =>
    apply h.update
    intro k hk m hm
    rw [held_update_self] at hk
    have hown : held locks st i = (locks i).take n := by simp [held, hi]
    exact h i m (Ne.symm hm) k (hown ▸ hk)
  | @finish i n hi =>
    apply h.update
    intro k hk
    rw [held_update_self] at hk
    cases hk

theorem exclusive_reachable (h : Reachable locks st) : Exclusive locks st := by
  induction h with
  | refl =>
    intro i j _ l hl
    simp [held, start] at hl
  | tail _ hstep ih => exact exclusive_step hstep ih

end Exclusion

/-! ### Crossings

Whether a set of transactions can deadlock shows in their lists alone. -/

section Crossing

variable {locks : ι → List κ} {cut : ι → ℕ}

/-- Cut where `cut` says, `i` comes next to a lock that `j` has. -/
def Meets (locks : ι → List κ) (cut : ι → ℕ) (i j : ι) : Prop :=
  j ≠ i ∧ ∃ l, (locks i)[cut i]? = some l ∧ l ∈ (locks j).take (cut j)

/-- The transactions can be cut so that what they have is disjoint and a ring of
them comes next to a lock of the one after. -/
structure CrossesAt (locks : ι → List κ) (cut : ι → ℕ) : Prop where
  apart : ∀ i j, i ≠ j → ∀ l ∈ (locks i).take (cut i), l ∉ (locks j).take (cut j)
  ring : ∃ i, Relation.TransGen (Meets locks cut) i i

def cutOf (st : ι → Phase) (i : ι) : ℕ :=
  match st i with
  | .running n => n
  | .waiting n => n
  | .ended => 0

omit [DecidableEq ι] in
theorem held_eq_take (st : ι → Phase) (i : ι) :
    held locks st i = (locks i).take (cutOf st i) := by
  unfold held cutOf
  cases st i <;> simp

theorem crossesAt_of_deadlocked {st : ι → Phase} (hreach : Reachable locks st)
    (h : Deadlocked locks st) : CrossesAt locks (cutOf st) := by
  constructor
  case apart =>
    intro i j hij l hl
    rw [← held_eq_take] at hl ⊢
    exact exclusive_reachable hreach i j hij l hl
  case ring =>
    obtain ⟨i, hring⟩ := h
    refine ⟨i, Relation.TransGen.mono (fun a b hwait => ?_) i i hring⟩
    obtain ⟨n, l, ha, hl, hne, hheld⟩ := hwait
    have hcut : cutOf st a = n := by simp [cutOf, ha]
    refine ⟨hne, l, ?_, ?_⟩
    · rw [hcut]
      exact hl
    · rwa [← held_eq_take]

end Crossing

section Witness

variable {locks : ι → List κ} {cut : ι → ℕ}

def cutState (cut : ι → ℕ) (done asks : List ι) (i : ι) : Phase :=
  if i ∈ asks then .waiting (cut i) else if i ∈ done then .running (cut i) else .running 0

theorem held_cutState_subset (done asks : List ι) (i : ι) :
    ∀ l ∈ held locks (cutState cut done asks) i, l ∈ (locks i).take (cut i) := by
  intro l hl
  unfold held cutState at hl
  split_ifs at hl
  · exact hl
  · exact hl
  · simp at hl

theorem reach_cut {st : ι → Phase} {i : ι} (hreach : Reachable locks st)
    (hi : st i = .running 0) (hcut : cut i ≤ (locks i).length)
    (hfree : ∀ l ∈ (locks i).take (cut i), ∀ j ≠ i, l ∉ held locks st j) :
    Reachable locks (Function.update st i (.running (cut i))) := by
  have hany : ∀ n ≤ cut i, Reachable locks (Function.update st i (.running n)) := by
    intro n
    induction n with
    | zero =>
      intro _
      rw [← hi, Function.update_eq_self]
      exact hreach
    | succ n ih =>
      intro hn
      have hlt : n < (locks i).length := by omega
      have hprev := ih (by omega)
      have hl : (locks i)[n]? = some (locks i)[n] := List.getElem?_eq_getElem hlt
      have hmem : (locks i)[n] ∈ (locks i).take (cut i) := by
        rw [List.mem_take_iff_getElem]
        exact ⟨n, by omega, rfl⟩
      have hstep : Step locks (Function.update st i (.running n))
          (Function.update (Function.update st i (.running n)) i (.running (n + 1))) := by
        apply Step.acquire (Or.inl (Function.update_self ..)) hl
        intro j hj
        rw [held_update_of_ne hj]
        exact hfree _ hmem j hj
      rw [Function.update_idem] at hstep
      exact hprev.tail hstep
  exact hany (cut i) le_rfl

theorem reach_cuts (hapart : ∀ i j, i ≠ j → ∀ l ∈ (locks i).take (cut i),
    l ∉ (locks j).take (cut j)) (hcut : ∀ i, cut i ≤ (locks i).length) (done : List ι)
    (hnodup : done.Nodup) : Reachable locks (cutState cut done []) := by
  induction done with
  | nil => exact Relation.ReflTransGen.refl
  | cons i done ih =>
    obtain ⟨hnot, hrest⟩ := List.nodup_cons.mp hnodup
    have hi : cutState cut done [] i = .running 0 := by simp [cutState, hnot]
    have hnext := reach_cut (ih hrest) hi (hcut i) fun l hl j hj hheld =>
      hapart i j (Ne.symm hj) l hl (held_cutState_subset done [] j l hheld)
    have heq : Function.update (cutState cut done []) i (.running (cut i)) =
        cutState cut (i :: done) [] := by
      funext j
      by_cases hj : j = i
      · subst hj
        simp [cutState]
      · simp [cutState, hj]
    rwa [heq] at hnext

theorem cutState_all {done : List ι} (hall : ∀ i, i ∈ done) (asks : List ι) (i : ι) :
    held locks (cutState cut done asks) i = (locks i).take (cut i) := by
  unfold held cutState
  split_ifs with hasks hdone
  · rfl
  · rfl
  · exact absurd (hall i) hdone

theorem reach_waits {done : List ι} (hall : ∀ i, i ∈ done)
    (hstart : Reachable locks (cutState cut done [])) (asks : List ι) (hnodup : asks.Nodup)
    (hmeets : ∀ i ∈ asks, ∃ j, Meets locks cut i j) :
    Reachable locks (cutState cut done asks) := by
  induction asks with
  | nil => exact hstart
  | cons i asks ih =>
    obtain ⟨hnot, hrest⟩ := List.nodup_cons.mp hnodup
    have hprev := ih hrest fun k hk => hmeets k (List.mem_cons_of_mem _ hk)
    obtain ⟨j, hj, l, hl, hmem⟩ := hmeets i (List.mem_cons_self ..)
    have hi : cutState cut done asks i = .running (cut i) := by simp [cutState, hnot, hall]
    have hheld : l ∈ held locks (cutState cut done asks) j := by rwa [cutState_all hall]
    have hstep := Step.block hi hl hj hheld
    have heq : Function.update (cutState cut done asks) i (.waiting (cut i)) =
        cutState cut done (i :: asks) := by
      funext k
      by_cases hk : k = i
      · subst hk
        simp [cutState]
      · simp [cutState, hk]
    rw [heq] at hstep
    exact hprev.tail hstep

theorem deadlock_of_crossesAt [Fintype ι] (h : CrossesAt locks cut) :
    ∃ st, Reachable locks st ∧ Deadlocked locks st := by
  classical
  -- A cut past the end of a list is the end of the list.
  let cut' : ι → ℕ := fun i => min (cut i) (locks i).length
  have htake : ∀ i, (locks i).take (cut' i) = (locks i).take (cut i) := by
    intro i
    rcases le_total (cut i) (locks i).length with hle | hle
    · simp only [cut', min_eq_left hle]
    · simp only [cut', min_eq_right hle, List.take_of_length_le hle, List.take_length]
  have hnext : ∀ i l, (locks i)[cut i]? = some l → (locks i)[cut' i]? = some l := by
    intro i l hl
    obtain ⟨hlt, _⟩ := List.getElem?_eq_some_iff.mp hl
    have hsame : cut' i = cut i := min_eq_left (le_of_lt hlt)
    rw [hsame]
    exact hl
  have hapart : ∀ i j, i ≠ j → ∀ l ∈ (locks i).take (cut' i), l ∉ (locks j).take (cut' j) := by
    intro i j hij l hl
    rw [htake] at hl ⊢
    exact h.apart i j hij l hl
  have hmeets : ∀ i j, Meets locks cut i j → Meets locks cut' i j := by
    rintro i j ⟨hne, l, hl, hmem⟩
    refine ⟨hne, l, hnext i l hl, ?_⟩
    rwa [htake]
  let everyone : List ι := Finset.univ.toList
  have hall : ∀ i, i ∈ everyone := fun i => Finset.mem_toList.mpr (Finset.mem_univ i)
  let asks : List ι := everyone.filter fun i => ∃ j, Meets locks cut' i j
  have hreach := reach_waits hall
    (reach_cuts hapart (fun i => min_le_right _ _) everyone (Finset.nodup_toList _)) asks
    ((Finset.nodup_toList _).filter _) fun i hi => by simpa using (List.mem_filter.mp hi).2
  refine ⟨_, hreach, ?_⟩
  obtain ⟨i, hring⟩ := h.ring
  refine ⟨i, Relation.TransGen.mono (fun a b hmeet => ?_) i i hring⟩
  obtain ⟨hne, l, hl, hmem⟩ := hmeets a b hmeet
  have hasks : a ∈ asks := List.mem_filter.mpr ⟨hall a, by simpa using ⟨b, hne, l, hl, hmem⟩⟩
  refine ⟨cut' a, l, by simp [cutState, hasks], hl, hne, ?_⟩
  rwa [cutState_all hall]

/-- No state with a ring of waiting transactions is reachable exactly when no cut
of the lists has one. -/
theorem deadlockFree_iff [Fintype ι] (locks : ι → List κ) :
    (∀ st, Reachable locks st → ¬ Deadlocked locks st) ↔ ∀ cut, ¬ CrossesAt locks cut := by
  constructor
  · intro hfree cut hcross
    obtain ⟨st, hreach, hdead⟩ := deadlock_of_crossesAt hcross
    exact hfree st hreach hdead
  · intro hnone st hreach hdead
    exact hnone _ (crossesAt_of_deadlocked hreach hdead)

end Witness

section Ordered

omit [DecidableEq ι]

variable {R : Type} [LinearOrder R] {rank : κ → R} {locks : ι → List κ} {cut : ι → ℕ}

def OutOfOrder (rank : κ → R) (xs : List κ) (n : ℕ) : Prop :=
  ∃ l, xs[n]? = some l ∧ l ∉ xs.take n ∧ ∃ k ∈ xs.take n, rank l ≤ rank k

def InOrder (rank : κ → R) (xs : List κ) : Prop := ∀ n, ¬ OutOfOrder rank xs n

theorem inOrder_of_pairwise {xs : List κ} (h : xs.Pairwise fun a b => rank a < rank b) :
    InOrder rank xs := by
  rintro n ⟨l, hl, _, k, hk, hle⟩
  obtain ⟨hn, rfl⟩ := List.getElem?_eq_some_iff.mp hl
  obtain ⟨m, hm, rfl⟩ := List.mem_take_iff_getElem.mp hk
  have hmn : m < n := lt_of_lt_of_le hm (min_le_left _ _)
  exact absurd hle (not_le.mpr (List.pairwise_iff_getElem.mp h m n _ hn hmn))

theorem inOrder_append {xs ys : List κ} (hxs : InOrder rank xs)
    (habove : ∀ l ∈ ys, l ∈ xs ∨ ∀ k ∈ xs, rank k < rank l)
    (hys : ys.Pairwise fun k l => l ∈ xs ∨ k ∈ xs ∨ k = l ∨ rank k < rank l) :
    InOrder rank (xs ++ ys) := by
  rintro n ⟨l, hl, hnew, k, hk, hle⟩
  rcases lt_or_ge n xs.length with hn | hn
  · rw [List.getElem?_append_left hn] at hl
    rw [List.take_append_of_le_length (le_of_lt hn)] at hnew hk
    exact hxs n ⟨l, hl, hnew, k, hk, hle⟩
  · rw [List.getElem?_append_right hn] at hl
    rw [List.take_append, List.take_of_length_le hn, List.mem_append] at hnew hk
    obtain ⟨hlt, rfl⟩ := List.getElem?_eq_some_iff.mp hl
    push Not at hnew
    have hfirst : ∀ k ∈ xs, rank k < rank ys[n - xs.length] :=
      (habove _ (List.getElem_mem hlt)).resolve_left hnew.1
    rcases hk with hk | hk
    · exact absurd hle (not_le.mpr (hfirst k hk))
    · have hold := hk
      obtain ⟨m, hm, rfl⟩ := List.mem_take_iff_getElem.mp hk
      have hmn : m < n - xs.length := lt_of_lt_of_le hm (min_le_left _ _)
      rcases List.pairwise_iff_getElem.mp hys m _ _ hlt hmn with hl | hk | heq | hlow
      · exact hnew.1 hl
      · exact absurd hle (not_le.mpr (hfirst _ hk))
      · exact hnew.2 (heq ▸ hold)
      · exact absurd hle (not_le.mpr hlow)

theorem CrossesAt.outOfOrder (h : CrossesAt locks cut) :
    ∃ i, OutOfOrder rank (locks i) (cut i) := by
  by_contra hnone
  push Not at hnone
  -- Along the ring the rank of the next lock grows.
  have hgrows : ∀ {i j k : ι} {l m : κ}, Meets locks cut i j → Meets locks cut j k →
      (locks i)[cut i]? = some l → (locks j)[cut j]? = some m → rank l < rank m := by
    rintro i j k l m ⟨hij, l', hl', hmem⟩ ⟨hjk, m', hm', hmem'⟩ hl hm
    obtain rfl : l' = l := Option.some.inj (hl'.symm.trans hl)
    obtain rfl : m' = m := Option.some.inj (hm'.symm.trans hm)
    by_contra hle
    exact hnone j ⟨m', hm', fun hown => h.apart j k (Ne.symm hjk) m' hown hmem', l', hmem,
      not_lt.mp hle⟩
  have hpath : ∀ {i j : ι}, Relation.TransGen (Meets locks cut) i j → ∀ {k : ι} {l m : κ},
      Meets locks cut j k → (locks i)[cut i]? = some l → (locks j)[cut j]? = some m →
        rank l < rank m := by
    intro i j hij
    induction hij with
    | single hmeet =>
      intro k l m hnext hl hm
      exact hgrows hmeet hnext hl hm
    | @tail b c _ hmeet ih =>
      intro k l m hnext hl hm
      have ⟨_, x, hx, _⟩ := hmeet
      exact lt_trans (ih hmeet hl hx) (hgrows hmeet hnext hx hm)
  obtain ⟨i, hring⟩ := h.ring
  obtain ⟨j, hfirst, _⟩ := Relation.TransGen.head'_iff.mp hring
  have ⟨_, l, hl, _⟩ := hfirst
  exact absurd (hpath hring hfirst hl hl) (lt_irrefl _)

theorem not_crossesAt_of_inOrder (h : ∀ i, InOrder rank (locks i)) : ¬ CrossesAt locks cut := by
  intro hcross
  obtain ⟨i, hout⟩ : ∃ i, OutOfOrder rank (locks i) (cut i) := hcross.outOfOrder
  exact h i _ hout

end Ordered

end LockTable
