import StockManager.Library.Dict
import StockManager.Library.Outcome
import StockManager.Model.Values

/-! # Provider requests and their budget (domain/sourcing/budget.py, service.py `search`) -/

namespace StockManager

inductive SourcingErr
  | value (message : String)
  | notConfigured (message : String)
  | budgetBlocked (reason : String)
  | planStale (message : String)
  | planOverride (message : String)
  | planCurrency (message : String)
  deriving DecidableEq, Repr

/-- `time.monotonic()` -/
abbrev Seconds := ℚ

inductive BudgetMode
  | live | degraded | blocked
  deriving DecidableEq, Repr

structure BudgetVerdict where
  allow : Bool
  mode : BudgetMode
  reason : String
  deriving DecidableEq

/-- `SOFT_LIMITS`: (rolling window in seconds, parts searched in it). -/
def softLimits : List (ℕ × ℤ) := [(10, 50), (60, 150), (3600, 2000), (86400, 15000)]

def hardLimits : List (ℕ × ℤ) := [(10, 250), (60, 1000), (3600, 25000), (86400, 250000)]

def windows : List ℕ := hardLimits.map Prod.fst

structure BudgetTracker where
  events : List ((Uuid × ℕ) × List (Seconds × ℤ))
  deriving DecidableEq

namespace BudgetTracker

def eventsOf (t : BudgetTracker) (workspaceId : Uuid) (windowSeconds : ℕ) : List (Seconds × ℤ) :=
  (Dict.find (workspaceId, windowSeconds) t.events).getD []

def windowTotal (t : BudgetTracker) (workspaceId : Uuid) (windowSeconds : ℕ) : ℤ :=
  ((t.eventsOf workspaceId windowSeconds).map Prod.snd).sum

/-- One turn of the loop of `_prune`. -/
def pruneWindow (workspaceId : Uuid) (now : Seconds) (t : BudgetTracker) (windowSeconds : ℕ) :
    BudgetTracker :=
  match Dict.find (workspaceId, windowSeconds) t.events with
  | none => t
  | some events =>
    let freshEvents := events.filter fun e => now - windowSeconds ≤ e.1
    if freshEvents ≠ [] then ⟨Dict.put (workspaceId, windowSeconds) freshEvents t.events⟩
    else ⟨Dict.erase (workspaceId, windowSeconds) t.events⟩

def prune (t : BudgetTracker) (workspaceId : Uuid) (now : Seconds) : BudgetTracker :=
  windows.foldl (pruneWindow workspaceId now) t

def validatePartsCount (partsCount : ℤ) : Except SourcingErr Unit :=
  Outcome.check (0 < partsCount) (.value "parts_count must be positive")

/-- `setdefault(key, []).append((now, parts_count))` for every window. -/
def append (t : BudgetTracker) (workspaceId : Uuid) (event : Seconds × ℤ) : BudgetTracker :=
  ⟨windows.foldl (fun d w => Dict.upsert (workspaceId, w) [] (· ++ [event]) d) t.events⟩

/-- The clock is read once for the event and again by the prune. -/
def record (t : BudgetTracker) (workspaceId : Uuid) (partsCount : ℤ) (now pruneNow : Seconds) :
    Except SourcingErr BudgetTracker := do
  validatePartsCount partsCount
  return (t.append workspaceId (now, partsCount)).prune workspaceId pruneNow

def windowLabel (windowSeconds : ℕ) : String :=
  if windowSeconds < 60 then s!"{windowSeconds}s"
  else if windowSeconds < 3600 then s!"{windowSeconds / 60}m"
  else if windowSeconds < 86400 then s!"{windowSeconds / 3600}h"
  else s!"{windowSeconds / 86400}d"

/-- The first limit that `parts_count` more would exceed. -/
def exceeded (t : BudgetTracker) (workspaceId : Uuid) (partsCount : ℤ) (limits : List (ℕ × ℤ)) :
    Option (ℕ × ℤ) :=
  limits.find? fun l => l.2 < t.windowTotal workspaceId l.1 + partsCount

def verdict (t : BudgetTracker) (workspaceId : Uuid) (partsCount : ℤ) : BudgetVerdict :=
  match t.exceeded workspaceId partsCount hardLimits with
  | some l => ⟨false, .blocked, s!"hard limit exceeded for {windowLabel l.1} window"⟩
  | none =>
    match t.exceeded workspaceId partsCount softLimits with
    | some l => ⟨true, .degraded, s!"soft limit exceeded for {windowLabel l.1} window"⟩
    | none => ⟨true, .live, "within TrustedParts parts-count budget"⟩

def check (t : BudgetTracker) (workspaceId : Uuid) (partsCount : ℤ) (now : Seconds) :
    Except SourcingErr (BudgetVerdict × BudgetTracker) := do
  validatePartsCount partsCount
  let t := t.prune workspaceId now
  return (t.verdict workspaceId partsCount, t)

end BudgetTracker

/-! ### Searches -/

def strip (s : String) : String :=
  String.ofList ((s.toList.dropWhile isSpace).reverse.dropWhile isSpace).reverse

def cleanMpns (mpns : List String) : Except SourcingErr (List String) := do
  let cleanMpns := mpns.map strip
  Outcome.check (1 ≤ cleanMpns.length ∧ cleanMpns.length ≤ 50 ∧ ∀ m ∈ cleanMpns, m ≠ "")
    (.value "sourcing search requires 1 to 50 non-empty MPNs")
  Outcome.check (∀ m ∈ cleanMpns, 2 ≤ m.length ∧ m.length ≤ 100)
    (.value "TrustedParts SearchToken length must be between 2 and 100")
  return cleanMpns

/-- Where a search stands past its budget check: before the lookup of the first
of the MPNs left, or after its upstream request with the rest left. -/
inductive SearchPhase
  | looking (mpns : List String)
  | recording (rest : List String)
  deriving DecidableEq

structure SearchTask where
  workspaceId : Uuid
  phase : SearchPhase
  deriving DecidableEq

structure SearchWorld where
  now : Seconds
  tracker : BudgetTracker
  tasks : List (ℕ × SearchTask)
  /-- The upstream requests so far: the workspace and the moment of each. -/
  fetches : List (Uuid × Seconds)
  deriving DecidableEq

inductive SearchStep
  /-- `BUDGET.check`; a search it blocks leaves no task. -/
  | start (task : ℕ) (workspaceId : Uuid) (mpns : List String) (now : Seconds)
  /-- The cache holds a row for the MPN. -/
  | cacheHit (task : ℕ) (now : Seconds)
  /-- The cache holds none, and the upstream request returns. -/
  | fetch (task : ℕ) (now : Seconds)
  /-- The upstream request raises, and with it the search. -/
  | fetchRaises (task : ℕ) (now : Seconds)
  /-- `BUDGET.record(workspace.id, 1)` -/
  | record (task : ℕ) (now pruneNow : Seconds)

namespace SearchWorld

def initial : SearchWorld := ⟨0, ⟨[]⟩, [], []⟩

/-- The workspace of a task that stands before a lookup, and the MPNs after that one. -/
def looking (w : SearchWorld) (task : ℕ) : Option (Uuid × List String) :=
  match Dict.find task w.tasks with
  | some ⟨workspaceId, .looking (_ :: rest)⟩ => some (workspaceId, rest)
  | _ => none

def recording (w : SearchWorld) (task : ℕ) : Option (Uuid × List String) :=
  match Dict.find task w.tasks with
  | some ⟨workspaceId, .recording rest⟩ => some (workspaceId, rest)
  | _ => none

end SearchWorld

/-- The steps of concurrent searches; the clock never goes backwards. -/
def searchStep : SearchStep → SearchWorld → Option SearchWorld
  | .start task workspaceId mpns now, w =>
    if w.now ≤ now ∧ Dict.find task w.tasks = none then
      match cleanMpns mpns with
      | .error _ => none
      | .ok clean =>
        match w.tracker.check workspaceId clean.length now with
        | .error _ => none
        | .ok (verdict, tracker) => some { w with
            now := now
            tracker := tracker
            tasks := if verdict.allow then w.tasks ++ [(task, ⟨workspaceId, .looking clean⟩)]
              else w.tasks }
    else none
  | .cacheHit task now, w =>
    if w.now ≤ now then
      (w.looking task).map fun found => { w with
        now := now
        tasks := Dict.put task ⟨found.1, .looking found.2⟩ w.tasks }
    else none
  | .fetch task now, w =>
    if w.now ≤ now then
      (w.looking task).map fun found => { w with
        now := now
        fetches := w.fetches ++ [(found.1, now)]
        tasks := Dict.put task ⟨found.1, .recording found.2⟩ w.tasks }
    else none
  | .fetchRaises task now, w =>
    if w.now ≤ now then
      (w.looking task).map fun found => { w with
        now := now
        fetches := w.fetches ++ [(found.1, now)]
        tasks := Dict.erase task w.tasks }
    else none
  | .record task now pruneNow, w =>
    if w.now ≤ now ∧ now ≤ pruneNow then
      (w.recording task).bind fun found =>
        match w.tracker.record found.1 1 now pruneNow with
        | .error _ => none
        | .ok tracker => some { w with
            now := pruneNow
            tracker := tracker
            tasks := Dict.put task ⟨found.1, .looking found.2⟩ w.tasks }
    else none

end StockManager
