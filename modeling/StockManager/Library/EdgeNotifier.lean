import Mathlib.Tactic.Common

/-! # Notifiers that fire on a rising edge

An input carries a condition. The notifier fires when the condition holds and
did not hold at the input before, and when enough time has passed since it
fired last. `elapsed last now` says that enough has. -/

namespace EdgeNotifier

variable {T : Type}

structure State (T : Type) where
  previous : Option Bool
  lastFired : Option T

structure Input (T : Type) where
  condition : Bool
  stamp : T
  now : T

variable (elapsed : T → T → Prop) [DecidableRel elapsed]

def Rested (s : State T) (now : T) : Prop := ∀ last ∈ s.lastFired, elapsed last now

instance (s : State T) (now : T) : Decidable (Rested elapsed s now) :=
  inferInstanceAs (Decidable (∀ last ∈ s.lastFired, elapsed last now))

def Fires (s : State T) (i : Input T) : Prop :=
  s.previous = some false ∧ i.condition = true ∧ Rested elapsed s i.now

instance (s : State T) (i : Input T) : Decidable (Fires elapsed s i) :=
  inferInstanceAs (Decidable (_ ∧ _ ∧ _))

def advance (s : State T) (i : Input T) : State T :=
  ⟨some i.condition, if Fires elapsed s i then some i.stamp else s.lastFired⟩

def stateBefore (inputs : ℕ → Input T) : ℕ → State T
  | 0 => ⟨none, none⟩
  | n + 1 => advance elapsed (stateBefore inputs n) (inputs n)

def FiresAt (inputs : ℕ → Input T) (n : ℕ) : Prop :=
  Fires elapsed (stateBefore elapsed inputs n) (inputs n)

instance (inputs : ℕ → Input T) (n : ℕ) : Decidable (FiresAt elapsed inputs n) :=
  inferInstanceAs (Decidable (Fires ..))

variable {elapsed} {inputs : ℕ → Input T}

theorem stateBefore_previous (n : ℕ) :
    (stateBefore elapsed inputs (n + 1)).previous = some (inputs n).condition := rfl

theorem stateBefore_lastFired {i j : ℕ} (hij : i < j) (hi : FiresAt elapsed inputs i)
    (hbetween : ∀ k, i < k → k < j → ¬ FiresAt elapsed inputs k) :
    (stateBefore elapsed inputs j).lastFired = some (inputs i).stamp := by
  induction j with
  | zero => omega
  | succ j ih =>
    have hstep : (stateBefore elapsed inputs (j + 1)).lastFired =
        if FiresAt elapsed inputs j then some (inputs j).stamp
        else (stateBefore elapsed inputs j).lastFired := by
      unfold FiresAt
      rfl
    rw [hstep]
    by_cases heq : i = j
    · subst heq
      rw [if_pos hi]
    · have hlt : i < j := by omega
      rw [if_neg (hbetween j hlt (by omega))]
      exact ih hlt fun k hk hkj => hbetween k hk (by omega)

theorem firesAt_spaced {i j : ℕ} (hij : i < j) (hi : FiresAt elapsed inputs i)
    (hj : FiresAt elapsed inputs j)
    (hbetween : ∀ k, i < k → k < j → ¬ FiresAt elapsed inputs k) :
    elapsed (inputs i).stamp (inputs j).now := by
  have hlast := stateBefore_lastFired hij hi hbetween
  exact hj.2.2 _ (by rw [hlast]; rfl)

theorem firesAt_succ {n : ℕ} : FiresAt elapsed inputs (n + 1) ↔
    (inputs n).condition = false ∧ (inputs (n + 1)).condition = true ∧
      Rested elapsed (stateBefore elapsed inputs (n + 1)) (inputs (n + 1)).now := by
  unfold FiresAt Fires
  rw [stateBefore_previous, Option.some.injEq]

theorem not_firesAt_zero : ¬ FiresAt elapsed inputs 0 := by
  intro h
  have hprev : (none : Option Bool) = some false := h.1
  cases hprev

theorem firesAt_edge {j : ℕ} (hj : FiresAt elapsed inputs j) :
    (inputs j).condition = true ∧ ∃ k < j, (inputs k).condition = false ∧
      ∀ i < j, FiresAt elapsed inputs i → i < k := by
  cases j with
  | zero => exact absurd hj not_firesAt_zero
  | succ n =>
    obtain ⟨hfalse, htrue, _⟩ := firesAt_succ.mp hj
    refine ⟨htrue, n, Nat.lt_succ_self n, hfalse, ?_⟩
    intro i hi hfire
    have hne : i ≠ n := by
      rintro rfl
      have hcond := hfire.2.1
      rw [hfalse] at hcond
      cases hcond
    omega

theorem not_firesAt_of_true {n m : ℕ} (hnm : n < m)
    (h : ∀ k, n ≤ k → k ≤ m → (inputs k).condition = true) : ¬ FiresAt elapsed inputs m := by
  intro hfire
  obtain ⟨k, rfl⟩ : ∃ k, m = k + 1 := ⟨m - 1, by omega⟩
  have hfalse := (firesAt_succ.mp hfire).1
  have htrue := h k (by omega) (by omega)
  rw [hfalse] at htrue
  cases htrue

end EdgeNotifier
