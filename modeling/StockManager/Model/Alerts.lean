import StockManager.Model.Values

/-! # Sourcing alerts (domain/sourcing/alerts_evaluator.py)

The alert types that watch for a crossing. -/

namespace StockManager

/-- `alert_type` with the threshold its schema allows. -/
inductive AlertType
  | stockBelow (qty : ℕ)
  | stockAbove (qty : ℕ)
  | backInStock
  | outOfAuthorizedStock
  | bomBuyable (buildQuantity : ℕ)
  deriving DecidableEq

/-- The one item of `last_evaluation_state`. -/
inductive EvaluationState
  | qty (value : Decimal)
  | hadStock (value : Bool)
  | isBuyable (value : Bool)
  deriving DecidableEq

structure SourcingAlert where
  id : Uuid
  alertType : AlertType
  cooldownSeconds : ℕ
  lastCheckedAt : Option Timestamp
  lastNotifiedAt : Option Timestamp
  lastEvaluationState : Option EvaluationState
  deriving DecidableEq

/-- The part or the project the alert watches, and what the services tell about it. -/
structure AlertReading where
  targetId : Uuid
  targetName : String
  mpn : Option String
  currentQuantity : Decimal
  authorizedStock : ℕ
  canBuildAfterPurchase : ℤ

structure AlertVerdict where
  triggered : Bool
  summary : String
  detail : List (String × String)
  newState : EvaluationState

/-- `int(value)` drops the fraction. -/
def truncate (q : Decimal) : ℤ := if 0 ≤ q then ⌊q⌋ else ⌈q⌉

/-- `_previous_int(state, "qty")` -/
def previousQty : Option EvaluationState → Option ℤ
  | some (.qty value) => some (truncate value)
  | _ => none

/-- `_previous_bool(state, "had_stock")` -/
def previousHadStock : Option EvaluationState → Option Bool
  | some (.hadStock value) => some value
  | _ => none

/-- `_previous_bool(state, "is_buyable")` -/
def previousIsBuyable : Option EvaluationState → Option Bool
  | some (.isBuyable value) => some value
  | _ => none

def stockDetail (r : AlertReading) (qty : ℕ) : List (String × String) :=
  [("part_id", uuidStr r.targetId), ("part_name", r.targetName), ("mpn", r.mpn.getD "None"),
    ("current_qty", quantityOut r.currentQuantity), ("threshold_qty", toString qty)]

def authorizedDetail (r : AlertReading) : List (String × String) :=
  [("part_id", uuidStr r.targetId), ("part_name", r.targetName), ("mpn", r.mpn.getD "None"),
    ("authorized_stock", toString r.authorizedStock)]

def evaluateStockBelow (alert : SourcingAlert) (qty : ℕ) (r : AlertReading) : AlertVerdict where
  triggered := (previousQty alert.lastEvaluationState).any ((qty : ℤ) ≤ ·) && r.currentQuantity < qty
  summary := s!"{r.targetName} stock below {qty}"
  detail := stockDetail r qty
  newState := .qty r.currentQuantity

def evaluateStockAbove (alert : SourcingAlert) (qty : ℕ) (r : AlertReading) : AlertVerdict where
  triggered := (previousQty alert.lastEvaluationState).any (· ≤ (qty : ℤ)) && qty < r.currentQuantity
  summary := s!"{r.targetName} stock above {qty}"
  detail := stockDetail r qty
  newState := .qty r.currentQuantity

def evaluateBackInStock (alert : SourcingAlert) (r : AlertReading) : AlertVerdict where
  triggered := previousHadStock alert.lastEvaluationState = some false && 0 < r.authorizedStock
  summary := s!"{r.targetName} is back in authorized stock"
  detail := authorizedDetail r
  newState := .hadStock (0 < r.authorizedStock)

def evaluateOutOfAuthorizedStock (alert : SourcingAlert) (r : AlertReading) : AlertVerdict where
  triggered := previousHadStock alert.lastEvaluationState = some true && !(0 < r.authorizedStock)
  summary := s!"{r.targetName} is out of authorized stock"
  detail := authorizedDetail r
  newState := .hadStock (0 < r.authorizedStock)

def evaluateBomBuyable (alert : SourcingAlert) (buildQuantity : ℕ) (r : AlertReading) :
    AlertVerdict where
  triggered := previousIsBuyable alert.lastEvaluationState = some false &&
    buildQuantity ≤ r.canBuildAfterPurchase
  summary := s!"{r.targetName} BOM is buyable"
  detail := [("project_id", uuidStr r.targetId), ("project_name", r.targetName),
    ("build_quantity", toString buildQuantity),
    ("can_build_after_purchase", toString r.canBuildAfterPurchase)]
  newState := .isBuyable (buildQuantity ≤ r.canBuildAfterPurchase)

/-- `EVALUATORS[alert.alert_type]` -/
def evaluate (alert : SourcingAlert) (r : AlertReading) : AlertVerdict :=
  match alert.alertType with
  | .stockBelow qty => evaluateStockBelow alert qty r
  | .stockAbove qty => evaluateStockAbove alert qty r
  | .backInStock => evaluateBackInStock alert r
  | .outOfAuthorizedStock => evaluateOutOfAuthorizedStock alert r
  | .bomBuyable buildQuantity => evaluateBomBuyable alert buildQuantity r

/-- `_cooldown_elapsed`, at the moment it reads the clock. -/
def cooldownElapsed (alert : SourcingAlert) (now : Timestamp) : Bool :=
  match alert.lastNotifiedAt with
  | none => true
  | some last => (alert.cooldownSeconds : ℤ) * 1000000 ≤ (now : ℤ) - last

structure AlertEmail where
  recipients : List String
  subject : String
  deriving DecidableEq

def prepareAlertEmail (recipients : List String) (verdict : AlertVerdict) : Option AlertEmail :=
  if recipients = [] then none
  else some ⟨recipients, s!"[stockManager] {verdict.summary}"⟩

/-- What one evaluation meets: the two readings of the clock, what the services
return or raise, and the recipients. -/
structure Evaluation where
  checkedAt : Timestamp
  now : Timestamp
  reading : Except String AlertReading
  recipients : List String

/-- The turn of `_evaluate_alert_rows` for one alert: what is committed, and the
email sent after the commit. A failure rolls back. -/
def evaluateAlertRow (alert : SourcingAlert) (ev : Evaluation) :
    SourcingAlert × Option AlertEmail :=
  match ev.reading with
  | .error _ => (alert, none)
  | .ok r =>
    let verdict := evaluate alert r
    let email := if verdict.triggered && cooldownElapsed alert ev.now then
      prepareAlertEmail ev.recipients verdict else none
    ({ alert with
        lastCheckedAt := some ev.checkedAt
        lastEvaluationState := some verdict.newState
        lastNotifiedAt := if email.isSome then some ev.checkedAt else alert.lastNotifiedAt }, email)

/-- The alert before the `n`-th evaluation. -/
def alertBefore (alert : SourcingAlert) (evs : ℕ → Evaluation) : ℕ → SourcingAlert
  | 0 => alert
  | n + 1 => (evaluateAlertRow (alertBefore alert evs n) (evs n)).1

def Notifies (alert : SourcingAlert) (evs : ℕ → Evaluation) (n : ℕ) : Prop :=
  (evaluateAlertRow (alertBefore alert evs n) (evs n)).2.isSome

/-- The condition the alert watches. -/
def AlertType.holds (t : AlertType) (r : AlertReading) : Bool :=
  match t with
  | .stockBelow qty => r.currentQuantity < qty
  | .stockAbove qty => qty < r.currentQuantity
  | .backInStock => 0 < r.authorizedStock
  | .outOfAuthorizedStock => r.authorizedStock = 0
  | .bomBuyable buildQuantity => buildQuantity ≤ r.canBuildAfterPurchase

end StockManager
