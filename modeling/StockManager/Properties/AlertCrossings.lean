import Mathlib.Tactic.Linarith
import StockManager.Library.EdgeNotifier
import StockManager.Model.Alerts

/-! # Alert crossings

An evaluated alert is an edge notifier: the persisted state is the condition at
the evaluation before, and `last_notified_at` the stamp of the last firing. -/

namespace StockManager

open EdgeNotifier

variable {alert : SourcingAlert} {s : EdgeNotifier.State Timestamp}

/-- The evaluation neither fails nor lacks recipients, and reads a whole quantity. -/
def Undisturbed (ev : Evaluation) (r : AlertReading) : Prop :=
  ev.reading = .ok r ∧ ev.recipients ≠ [] ∧ r.currentQuantity.den = 1

def Persisted (t : AlertType) (condition : Bool) : EvaluationState → Prop
  | .qty value => value.den = 1 ∧ match t with
    | .stockBelow qty => condition = decide (value < qty)
    | .stockAbove qty => condition = decide ((qty : Decimal) < value)
    | _ => False
  | .hadStock value => match t with
    | .backInStock => condition = value
    | .outOfAuthorizedStock => condition = !value
    | _ => False
  | .isBuyable value => match t with
    | .bomBuyable _ => condition = value
    | _ => False

/-- The alert stands where the notifier stands. -/
structure Tracks (alert : SourcingAlert) (s : EdgeNotifier.State Timestamp) : Prop where
  previous : match alert.lastEvaluationState with
    | none => s.previous = none
    | some st => ∃ condition, s.previous = some condition ∧ Persisted alert.alertType condition st
  lastFired : alert.lastNotifiedAt = s.lastFired

def cooled (cooldownSeconds : ℕ) (last now : Timestamp) : Prop :=
  (cooldownSeconds : ℤ) * 1000000 ≤ (now : ℤ) - last

instance (cooldownSeconds : ℕ) : DecidableRel (cooled cooldownSeconds) :=
  fun _ _ => inferInstanceAs (Decidable (_ ≤ _))

def edgeInput (t : AlertType) (ev : Evaluation) (r : AlertReading) :
    EdgeNotifier.Input Timestamp :=
  ⟨t.holds r, ev.checkedAt, ev.now⟩

theorem truncate_whole {q : Decimal} (h : q.den = 1) : truncate q = q.num := by
  have hq : q = (q.num : Decimal) := ((Rat.den_eq_one_iff q).mp h).symm
  unfold truncate
  split
  next => rw [hq, Int.floor_intCast, Rat.num_intCast]
  next => rw [hq, Int.ceil_intCast, Rat.num_intCast]

theorem cooldownElapsed_iff (h : alert.lastNotifiedAt = s.lastFired) (now : Timestamp) :
    cooldownElapsed alert now = true ↔ Rested (cooled alert.cooldownSeconds) s now := by
  unfold cooldownElapsed Rested
  rw [← h]
  cases alert.lastNotifiedAt with
  | none => simp
  | some last => simp [cooled]

theorem evaluate_newState (alert : SourcingAlert) {r : AlertReading}
    (h : r.currentQuantity.den = 1) :
    Persisted alert.alertType (alert.alertType.holds r) (evaluate alert r).newState := by
  unfold evaluate AlertType.holds
  cases alert.alertType with
  | stockBelow qty => exact ⟨h, rfl⟩
  | stockAbove qty => exact ⟨h, rfl⟩
  | backInStock => rfl
  | outOfAuthorizedStock =>
    show decide (r.authorizedStock = 0) = !decide (0 < r.authorizedStock)
    cases r.authorizedStock <;> simp
  | bomBuyable buildQuantity => rfl

theorem evaluate_triggered (h : Tracks alert s) (r : AlertReading) :
    (evaluate alert r).triggered = true ↔
      s.previous = some false ∧ alert.alertType.holds r = true := by
  have hprev := h.previous
  cases hstate : alert.lastEvaluationState with
  | none =>
    rw [hstate] at hprev
    have hnone : s.previous = none := hprev
    unfold evaluate
    cases alert.alertType <;>
      simp [evaluateStockBelow, evaluateStockAbove, evaluateBackInStock,
        evaluateOutOfAuthorizedStock, evaluateBomBuyable, hstate, previousQty, previousHadStock,
        previousIsBuyable, hnone]
  | some st =>
    rw [hstate] at hprev
    obtain ⟨condition, hcond, hpersisted⟩ := hprev
    rw [hcond, Option.some.injEq]
    unfold evaluate AlertType.holds
    cases ht : alert.alertType with
    | stockBelow qty =>
      rw [ht] at hpersisted
      cases st with
      | qty value =>
        obtain ⟨hwhole, rfl⟩ := hpersisted
        have hvalue : value = (value.num : Decimal) := ((Rat.den_eq_one_iff value).mp hwhole).symm
        have hle : (qty : ℤ) ≤ value.num ↔ ¬ value < qty := by
          rw [not_lt, hvalue, Rat.num_intCast]
          exact_mod_cast Iff.rfl
        simp [evaluateStockBelow, hstate, previousQty, truncate_whole hwhole, hle]
      | hadStock value => exact hpersisted.elim
      | isBuyable value => exact hpersisted.elim
    | stockAbove qty =>
      rw [ht] at hpersisted
      cases st with
      | qty value =>
        obtain ⟨hwhole, rfl⟩ := hpersisted
        have hvalue : value = (value.num : Decimal) := ((Rat.den_eq_one_iff value).mp hwhole).symm
        have hle : value.num ≤ (qty : ℤ) ↔ ¬ (qty : Decimal) < value := by
          rw [not_lt, hvalue, Rat.num_intCast]
          exact_mod_cast Iff.rfl
        simp [evaluateStockAbove, hstate, previousQty, truncate_whole hwhole, hle]
      | hadStock value => exact hpersisted.elim
      | isBuyable value => exact hpersisted.elim
    | backInStock =>
      rw [ht] at hpersisted
      cases st with
      | qty value => exact hpersisted.2.elim
      | hadStock value =>
        have heq : condition = value := hpersisted
        simp [evaluateBackInStock, hstate, previousHadStock, heq]
      | isBuyable value => exact hpersisted.elim
    | outOfAuthorizedStock =>
      rw [ht] at hpersisted
      cases st with
      | qty value => exact hpersisted.2.elim
      | hadStock value =>
        have heq : condition = !value := hpersisted
        simp [evaluateOutOfAuthorizedStock, hstate, previousHadStock, heq]
      | isBuyable value => exact hpersisted.elim
    | bomBuyable buildQuantity =>
      rw [ht] at hpersisted
      cases st with
      | qty value => exact hpersisted.2.elim
      | hadStock value => exact hpersisted.elim
      | isBuyable value =>
        have heq : condition = value := hpersisted
        simp [evaluateBomBuyable, hstate, previousIsBuyable, heq]

theorem evaluateAlertRow_refines
    {ev : Evaluation} {r : AlertReading} (h : Tracks alert s) (hev : Undisturbed ev r) :
    let input := edgeInput alert.alertType ev r
    let after := evaluateAlertRow alert ev
    Tracks after.1 (advance (cooled alert.cooldownSeconds) s input) ∧
      after.1.alertType = alert.alertType ∧ after.1.cooldownSeconds = alert.cooldownSeconds ∧
      (after.2.isSome ↔ Fires (cooled alert.cooldownSeconds) s input) := by
  intro input after
  obtain ⟨hreading, hrecipients, hwhole⟩ := hev
  have hfires : ((evaluate alert r).triggered && cooldownElapsed alert ev.now) = true ↔
      Fires (cooled alert.cooldownSeconds) s input := by
    rw [Bool.and_eq_true, evaluate_triggered h, cooldownElapsed_iff h.lastFired, and_assoc]
    rfl
  have hemail : after.2 = if Fires (cooled alert.cooldownSeconds) s input then
      some ⟨ev.recipients, s!"[stockManager] {(evaluate alert r).summary}"⟩ else none := by
    simp only [after, evaluateAlertRow, hreading, prepareAlertEmail, if_neg hrecipients]
    by_cases hf : Fires (cooled alert.cooldownSeconds) s input
    · rw [if_pos (hfires.mpr hf), if_pos hf]
    · rw [if_neg (fun hc => hf (hfires.mp hc)), if_neg hf]
  have hsome : after.2.isSome ↔ Fires (cooled alert.cooldownSeconds) s input := by
    rw [hemail]
    split <;> simp_all
  have hafter : after.1 = { alert with
      lastCheckedAt := some ev.checkedAt
      lastEvaluationState := some (evaluate alert r).newState
      lastNotifiedAt := if after.2.isSome then some ev.checkedAt else alert.lastNotifiedAt } := by
    simp only [after, evaluateAlertRow, hreading]
  refine ⟨⟨?_, ?_⟩, by rw [hafter], by rw [hafter], hsome⟩
  · rw [hafter]
    exact ⟨_, rfl, evaluate_newState alert hwhole⟩
  · rw [hafter, h.lastFired]
    simp only [advance]
    by_cases hf : Fires (cooled alert.cooldownSeconds) s input
    · rw [if_pos (hsome.mpr hf), if_pos hf]
      rfl
    · rw [if_neg (fun hc => hf (hsome.mp hc)), if_neg hf]

section Runs

variable {alert : SourcingAlert} {evs : ℕ → Evaluation} {readings : ℕ → AlertReading}

theorem alertBefore_tracks (hstate : alert.lastEvaluationState = none)
    (hnotified : alert.lastNotifiedAt = none) (hevs : ∀ n, Undisturbed (evs n) (readings n))
    (n : ℕ) :
    let inputs := fun n => edgeInput alert.alertType (evs n) (readings n)
    Tracks (alertBefore alert evs n) (stateBefore (cooled alert.cooldownSeconds) inputs n) ∧
      (alertBefore alert evs n).alertType = alert.alertType ∧
      (alertBefore alert evs n).cooldownSeconds = alert.cooldownSeconds := by
  intro inputs
  induction n with
  | zero =>
    refine ⟨⟨?_, hnotified⟩, rfl, rfl⟩
    simp [alertBefore, hstate, stateBefore]
  | succ n ih =>
    obtain ⟨htracks, htype, hcooldown⟩ := ih
    obtain ⟨hnext, htype', hcooldown', _⟩ := evaluateAlertRow_refines htracks (hevs n)
    rw [htype, hcooldown] at hnext
    exact ⟨hnext, htype'.trans htype, hcooldown'.trans hcooldown⟩

theorem notifies_iff (alert : SourcingAlert) (hstate : alert.lastEvaluationState = none)
    (hnotified : alert.lastNotifiedAt = none) (hevs : ∀ n, Undisturbed (evs n) (readings n))
    (n : ℕ) :
    Notifies alert evs n ↔ FiresAt (cooled alert.cooldownSeconds)
      (fun n => edgeInput alert.alertType (evs n) (readings n)) n := by
  obtain ⟨htracks, htype, hcooldown⟩ := alertBefore_tracks hstate hnotified hevs n
  have hstep := (evaluateAlertRow_refines htracks (hevs n)).2.2.2
  rw [htype, hcooldown] at hstep
  exact hstep

/-- Notifications of a fresh alert are decided a cooldown after the stamp of the
one before, announce a crossing since the one before, and announce every
crossing whose evaluation comes after the cooldown, and no other. -/
theorem crossing_notified (alert : SourcingAlert) (hstate : alert.lastEvaluationState = none)
    (hnotified : alert.lastNotifiedAt = none) (hevs : ∀ n, Undisturbed (evs n) (readings n)) :
    (∀ i j, i < j → Notifies alert evs i → Notifies alert evs j →
      (∀ k, i < k → k < j → ¬ Notifies alert evs k) →
        (evs i).checkedAt + (alert.cooldownSeconds : ℤ) * 1000000 ≤ (evs j).now) ∧
    (∀ j, Notifies alert evs j → alert.alertType.holds (readings j) = true ∧
      ∃ k < j, alert.alertType.holds (readings k) = false ∧
        ∀ i < j, Notifies alert evs i → i < k) ∧
    (∀ n, alert.alertType.holds (readings n) = false →
      alert.alertType.holds (readings (n + 1)) = true →
        (Notifies alert evs (n + 1) ↔
          cooldownElapsed (alertBefore alert evs (n + 1)) (evs (n + 1)).now = true)) ∧
    (∀ n m, n < m → (∀ k, n ≤ k → k ≤ m → alert.alertType.holds (readings k) = true) →
      ¬ Notifies alert evs m) := by
  have hiff := notifies_iff alert hstate hnotified hevs
  refine ⟨?_, ?_, ?_, ?_⟩
  · intro i j hij hi hj hbetween
    have hspaced := firesAt_spaced hij ((hiff i).mp hi) ((hiff j).mp hj)
      fun k hik hkj hk => hbetween k hik hkj ((hiff k).mpr hk)
    simp only [cooled, edgeInput] at hspaced
    omega
  · intro j hj
    obtain ⟨htrue, k, hkj, hfalse, hlater⟩ := firesAt_edge ((hiff j).mp hj)
    exact ⟨htrue, k, hkj, hfalse, fun i hij hi => hlater i hij ((hiff i).mp hi)⟩
  · intro n hfalse htrue
    obtain ⟨htracks, _, hcooldown⟩ := alertBefore_tracks hstate hnotified hevs (n + 1)
    rw [hiff, firesAt_succ, cooldownElapsed_iff htracks.lastFired, hcooldown]
    constructor
    · intro h
      exact h.2.2
    · intro h
      exact ⟨hfalse, htrue, h⟩
  · intro n m hnm htrue hm
    exact not_firesAt_of_true hnm htrue ((hiff m).mp hm)

end Runs

/-- One evaluation every ten seconds; the stock is 6, 4, 6 and then stays at 4. -/
def dipReading (n : ℕ) : AlertReading :=
  ⟨10, "Bolt", none, if n = 0 ∨ n = 2 then 6 else 4, 0, 0⟩

def dipEvaluation (n : ℕ) : Evaluation :=
  ⟨n * 10000000, n * 10000000, .ok (dipReading n), ["owner@example.com"]⟩

def dipAlert : SourcingAlert := ⟨1, .stockBelow 5, 60, none, none, none⟩

theorem dip_undisturbed (n : ℕ) : Undisturbed (dipEvaluation n) (dipReading n) := by
  refine ⟨rfl, by simp [dipEvaluation], ?_⟩
  unfold dipReading
  by_cases h : n = 0 ∨ n = 2
  · simp only [if_pos h]
    rfl
  · simp only [if_neg h]
    rfl

theorem dip_below (n : ℕ) (hn : 3 ≤ n) : dipAlert.alertType.holds (dipReading n) = true := by
  have hne : ¬ (n = 0 ∨ n = 2) := by omega
  simp only [dipAlert, AlertType.holds, dipReading, if_neg hne]
  decide

theorem crossing_notified_sample : Notifies dipAlert dipEvaluation 1 ↔
    cooldownElapsed (alertBefore dipAlert dipEvaluation 1) (dipEvaluation 1).now = true :=
  (crossing_notified dipAlert rfl rfl dip_undisturbed).2.2.1 0
    (by decide) (by decide)

/-- The crossing at the fourth evaluation falls into the cooldown of the one at
the second; the stock stays below the threshold and nothing ever announces it. -/
theorem crossing_lost_in_cooldown :
    Notifies dipAlert dipEvaluation 1 ∧ dipAlert.alertType.holds (dipReading 2) = false ∧
      (∀ n, 3 ≤ n → dipAlert.alertType.holds (dipReading n) = true) ∧
      ∀ n, 2 ≤ n → ¬ Notifies dipAlert dipEvaluation n := by
  refine ⟨by unfold Notifies; decide, by decide, dip_below, ?_⟩
  intro n hn
  by_cases hlate : 4 ≤ n
  · rw [notifies_iff dipAlert rfl rfl dip_undisturbed]
    exact not_firesAt_of_true (n := 3) (by omega) fun k hk _ => dip_below k hk
  · have hcases : n = 2 ∨ n = 3 := by omega
    unfold Notifies
    rcases hcases with rfl | rfl
    · decide
    · decide

end StockManager
