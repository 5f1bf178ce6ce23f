import Mathlib.Tactic.Linarith
import StockManager.Library.Machine
import StockManager.Model.Budget

/-! # The hard limit on provider requests

A check reads what is recorded; requests of searches that passed their own
check and have not recorded yet are not in it. The two counts below close the
gap: what is asked or may still be asked is recorded or in flight. -/

namespace StockManager

variable {w u : SearchWorld} {task : ℕ} {now : Seconds} {ws : Uuid}

open Tally

namespace SearchWorld

/-- The upstream requests of a workspace from `since` on. -/
def fetchesSince (w : SearchWorld) (workspaceId : Uuid) (since : Seconds) : ℤ :=
  tally (fun f => f.1 = workspaceId ∧ since ≤ f.2) (fun _ => 1) w.fetches

end SearchWorld

def SearchTask.unfetched (t : SearchTask) : ℤ :=
  match t.phase with
  | .looking mpns => mpns.length
  | .recording rest => rest.length

def SearchTask.unrecorded (t : SearchTask) : ℤ :=
  match t.phase with
  | .looking _ => 0
  | .recording _ => 1

/-- The requests searches of the workspace may still make. -/
def unfetched (tasks : List (ℕ × SearchTask)) (workspaceId : Uuid) : ℤ :=
  tally (fun item => item.2.workspaceId = workspaceId) (fun item => item.2.unfetched) tasks

/-- The requests searches of the workspace have made and not recorded. -/
def unrecorded (tasks : List (ℕ × SearchTask)) (workspaceId : Uuid) : ℤ :=
  tally (fun item => item.2.workspaceId = workspaceId) (fun item => item.2.unrecorded) tasks

namespace BudgetTracker

def recordedSince (t : BudgetTracker) (workspaceId : Uuid) (windowSeconds : ℕ) (since : Seconds) :
    ℤ :=
  tally (fun e => since ≤ e.1) Prod.snd (t.eventsOf workspaceId windowSeconds)

theorem eventsOf_pruneWindow (t : BudgetTracker) (ws ws' : Uuid) (now : Seconds) (w w' : ℕ) :
    (pruneWindow ws now t w).eventsOf ws' w' =
      if ws' = ws ∧ w' = w then (t.eventsOf ws' w').filter fun e => now - w ≤ e.1
      else t.eventsOf ws' w' := by
  unfold pruneWindow eventsOf
  by_cases hkey : ws' = ws ∧ w' = w
  · obtain ⟨rfl, rfl⟩ := hkey
    rw [if_pos ⟨rfl, rfl⟩]
    cases hfind : Dict.find (ws', w') t.events with
    | none => simp [hfind]
    | some events =>
      dsimp only [Option.getD_some]
      generalize events.filter (fun e => now - w' ≤ e.1) = freshEvents
      by_cases hfresh : freshEvents = []
      · simp [hfresh, Dict.find_erase_self]
      · simp [hfresh, Dict.put, Dict.find_upsert_self]
  · have hne : (ws, w) ≠ (ws', w') := by
      rintro heq
      rw [Prod.mk.injEq] at heq
      exact hkey ⟨heq.1.symm, heq.2.symm⟩
    rw [if_neg hkey]
    cases hfind : Dict.find (ws, w) t.events with
    | none => rfl
    | some events =>
      dsimp only
      generalize events.filter (fun e => now - w ≤ e.1) = freshEvents
      by_cases hfresh : freshEvents = []
      · simp [hfresh, Dict.find_erase_of_ne hne]
      · simp [hfresh, Dict.put, Dict.find_upsert_of_ne hne]

/-- After a prune of the workspace, the events of each window are the ones that
the window still reaches. -/
theorem eventsOf_prune (t : BudgetTracker) (ws ws' : Uuid) (now : Seconds) {w : ℕ}
    (hw : w ∈ windows) :
    (t.prune ws now).eventsOf ws' w =
      if ws' = ws then (t.eventsOf ws' w).filter fun e => now - w ≤ e.1 else t.eventsOf ws' w := by
  have hfold : ∀ (l : List ℕ) (t : BudgetTracker), l.Nodup →
      (l.foldl (pruneWindow ws now) t).eventsOf ws' w =
        if ws' = ws ∧ w ∈ l then (t.eventsOf ws' w).filter fun e => now - w ≤ e.1
        else t.eventsOf ws' w := by
    intro l
    induction l with
    | nil => intro t _; simp
    | cons v l ih =>
      intro t hnodup
      have hcons := List.nodup_cons.mp hnodup
      rw [List.foldl_cons, ih _ hcons.2, eventsOf_pruneWindow]
      by_cases hv : w = v
      · subst hv
        simp [hcons.1]
      · simp [hv]
  rw [prune, hfold windows t (by decide)]
  simp [hw]

theorem eventsOf_append (t : BudgetTracker) (ws ws' : Uuid) (event : Seconds × ℤ) {w : ℕ}
    (hw : w ∈ windows) :
    (t.append ws event).eventsOf ws' w =
      if ws' = ws then t.eventsOf ws' w ++ [event] else t.eventsOf ws' w := by
  have hfold : ∀ (l : List ℕ) (d : List ((Uuid × ℕ) × List (Seconds × ℤ))), l.Nodup →
      (Dict.find (ws', w) (l.foldl (fun d v => Dict.upsert (ws, v) [] (· ++ [event]) d) d)).getD [] =
        if ws' = ws ∧ w ∈ l then (Dict.find (ws', w) d).getD [] ++ [event]
        else (Dict.find (ws', w) d).getD [] := by
    intro l
    induction l with
    | nil => intro d _; simp
    | cons v l ih =>
      intro d hnodup
      have hcons := List.nodup_cons.mp hnodup
      rw [List.foldl_cons, ih _ hcons.2]
      by_cases hkey : ws' = ws ∧ w = v
      · obtain ⟨rfl, rfl⟩ := hkey
        simp [hcons.1, Dict.find_upsert_self]
      · have hne : (ws, v) ≠ (ws', w) := by
          intro heq
          rw [Prod.mk.injEq] at heq
          exact hkey ⟨heq.1.symm, heq.2.symm⟩
        rw [Dict.find_upsert_of_ne hne]
        by_cases hws : ws' = ws
        · have hwv : w ≠ v := fun h => hkey ⟨hws, h⟩
          simp [hws, hwv]
        · simp [hws]
  unfold append eventsOf
  rw [hfold windows t.events (by decide)]
  simp [hw]

theorem recordedSince_prune (t : BudgetTracker) (ws ws' : Uuid) {now since : Seconds} {w : ℕ}
    (hw : w ∈ windows) (hsince : now - w ≤ since) :
    (t.prune ws now).recordedSince ws' w since = t.recordedSince ws' w since := by
  unfold recordedSince
  rw [eventsOf_prune t ws ws' now hw]
  split
  next =>
    rw [tally_filter]
    apply tally_congr
    · intro e _
      constructor
      · intro he
        exact he.2
      · intro he
        exact ⟨hsince.trans he, he⟩
    · intro e _ _
      rfl
  next => rfl

theorem recordedSince_append (t : BudgetTracker) (ws ws' : Uuid) (event : Seconds × ℤ)
    {since : Seconds} {w : ℕ} (hw : w ∈ windows) :
    (t.append ws event).recordedSince ws' w since =
      t.recordedSince ws' w since + if ws' = ws ∧ since ≤ event.1 then event.2 else 0 := by
  unfold recordedSince
  rw [eventsOf_append t ws ws' event hw]
  by_cases hws : ws' = ws
  · simp [hws, tally_singleton]
  · simp [hws]

theorem windowTotal_prune (t : BudgetTracker) (ws : Uuid) (now : Seconds) {w : ℕ}
    (hw : w ∈ windows) :
    (t.prune ws now).windowTotal ws w = t.recordedSince ws w (now - w) := by
  have hall : ∀ e ∈ (t.prune ws now).eventsOf ws w, now - w ≤ e.1 := by
    intro e he
    rw [eventsOf_prune t ws ws now hw, if_pos rfl, List.mem_filter] at he
    simpa using he.2
  rw [← recordedSince_prune t ws ws hw le_rfl]
  exact (tally_all _ _ hall).symm

end BudgetTracker

section Tasks

variable {tasks : List (ℕ × SearchTask)} {task : ℕ} {t : SearchTask}

theorem tally_put (f : SearchTask → ℤ) (ws : Uuid) (t' : SearchTask)
    (h : Dict.find task tasks = some t) (hws : t'.workspaceId = t.workspaceId) :
    tally (fun item => item.2.workspaceId = ws) (fun item => f item.2) (Dict.put task t' tasks) =
      tally (fun item => item.2.workspaceId = ws) (fun item => f item.2) tasks +
        if t.workspaceId = ws then f t' - f t else 0 := by
  unfold Dict.put
  induction tasks with
  | nil => simp [Dict.find] at h
  | cons item rest ih =>
    obtain ⟨k, v⟩ := item
    by_cases hk : k = task
    · subst hk
      have hv : v = t := by simpa [Dict.find] using h
      subst hv
      simp only [Dict.upsert, if_true, tally_cons, hws]
      split <;> omega
    · have hrest : Dict.find task rest = some t := by simpa [Dict.find, hk] using h
      simp only [Dict.upsert, if_neg hk, tally_cons, ih hrest]
      omega

theorem unfetched_put (ws : Uuid) (t' : SearchTask) (h : Dict.find task tasks = some t)
    (hws : t'.workspaceId = t.workspaceId) :
    unfetched (Dict.put task t' tasks) ws =
      unfetched tasks ws + if t.workspaceId = ws then t'.unfetched - t.unfetched else 0 :=
  tally_put SearchTask.unfetched ws t' h hws

theorem unrecorded_put (ws : Uuid) (t' : SearchTask) (h : Dict.find task tasks = some t)
    (hws : t'.workspaceId = t.workspaceId) :
    unrecorded (Dict.put task t' tasks) ws =
      unrecorded tasks ws + if t.workspaceId = ws then t'.unrecorded - t.unrecorded else 0 :=
  tally_put SearchTask.unrecorded ws t' h hws

end Tasks

theorem unfetched_nonneg (tasks : List (ℕ × SearchTask)) (ws : Uuid) : 0 ≤ unfetched tasks ws := by
  apply tally_nonneg
  intro item _ _
  unfold SearchTask.unfetched
  split <;> omega

theorem unrecorded_nonneg (tasks : List (ℕ × SearchTask)) (ws : Uuid) :
    0 ≤ unrecorded tasks ws := by
  apply tally_nonneg
  intro item _ _
  unfold SearchTask.unrecorded
  split <;> omega

theorem looking_some {found : Uuid × List String} (h : w.looking task = some found) :
    ∃ mpn, Dict.find task w.tasks = some ⟨found.1, .looking (mpn :: found.2)⟩ := by
  unfold SearchWorld.looking at h
  split at h
  next workspaceId mpn rest hfind =>
    obtain rfl := Option.some.inj h
    exact ⟨mpn, hfind⟩
  next => cases h

theorem recording_some {found : Uuid × List String} (h : w.recording task = some found) :
    Dict.find task w.tasks = some ⟨found.1, .recording found.2⟩ := by
  unfold SearchWorld.recording at h
  split at h
  next workspaceId rest hfind =>
    obtain rfl := Option.some.inj h
    exact hfind
  next => cases h

theorem cleanMpns_length {mpns clean : List String} (h : cleanMpns mpns = .ok clean) :
    clean.length = mpns.length := by
  simp only [cleanMpns, Outcome.check_bind_ok, Outcome.pure_ok] at h
  rw [← h.2.2, List.length_map]

open BudgetTracker

structure Accounted (w : SearchWorld) : Prop where
  past : ∀ f ∈ w.fetches, f.2 ≤ w.now
  counted : ∀ ws, ∀ v ∈ windows, ∀ e ∈ w.tracker.eventsOf ws v, 0 ≤ e.2
  recorded : ∀ ws, ∀ v ∈ windows, ∀ since, w.now - v ≤ since →
    w.fetchesSince ws since ≤ w.tracker.recordedSince ws v since + unrecorded w.tasks ws

def WithinLimits (w : SearchWorld) : Prop :=
  ∀ ws, ∀ l ∈ hardLimits, w.fetchesSince ws (w.now - l.1) + unfetched w.tasks ws ≤ l.2

/-- A search that passes the check would pass it with the requests in flight
counted too, and no request raises. -/
def countsInFlight : SearchStep → SearchWorld → Prop
  | .start _ ws mpns now, w =>
    let t := w.tracker.prune ws now
    (t.verdict ws mpns.length).allow = true → ∀ l ∈ hardLimits,
      t.windowTotal ws l.1 + (unfetched w.tasks ws + unrecorded w.tasks ws) + mpns.length ≤ l.2
  | .fetchRaises _ _, _ => False
  | _, _ => True

theorem mem_windows {l : ℕ × ℤ} (hl : l ∈ hardLimits) : l.1 ∈ windows :=
  List.mem_map_of_mem hl

theorem fetchesSince_mono (ws : Uuid) {a b : Seconds} (hab : a ≤ b) :
    w.fetchesSince ws b ≤ w.fetchesSince ws a := by
  apply tally_mono
  · intro _ _
    exact zero_le_one
  · intro f _ hf
    exact ⟨hf.1, hab.trans hf.2⟩

theorem check_ok {t t' : BudgetTracker} {n : ℤ} {v : BudgetVerdict}
    (h : t.check ws n now = .ok (v, t')) :
    t' = t.prune ws now ∧ v = (t.prune ws now).verdict ws n := by
  simp only [check, validatePartsCount, Outcome.check_bind_ok, Outcome.pure_ok,
    Prod.mk.injEq] at h
  exact ⟨h.2.2.symm, h.2.1.symm⟩

theorem record_ok {t t' : BudgetTracker} {n : ℤ} {now pruneNow : Seconds}
    (h : t.record ws n now pruneNow = .ok t') :
    0 < n ∧ t' = (t.append ws (now, n)).prune ws pruneNow := by
  simp only [record, validatePartsCount, Outcome.check_bind_ok, Outcome.pure_ok] at h
  exact ⟨h.1, h.2.symm⟩

theorem start_some {mpns : List String} (h : searchStep (.start task ws mpns now) w = some u) :
    w.now ≤ now ∧ ∃ clean, clean.length = mpns.length ∧ u = { w with
      now := now
      tracker := w.tracker.prune ws now
      tasks := if ((w.tracker.prune ws now).verdict ws mpns.length).allow
        then w.tasks ++ [(task, ⟨ws, .looking clean⟩)] else w.tasks } := by
  simp only [searchStep] at h
  split at h
  next hnow =>
    split at h
    next => cases h
    next clean hclean =>
      split at h
      next => cases h
      next v tracker hcheck =>
        obtain ⟨rfl, rfl⟩ := check_ok hcheck
        have hlen := cleanMpns_length hclean
        rw [hlen] at h
        exact ⟨hnow.1, clean, hlen, (Option.some.inj h).symm⟩
  next => cases h

theorem start_preserves {mpns : List String} (hacc : Accounted w) (hwithin : WithinLimits w)
    (hguard : countsInFlight (.start task ws mpns now) w)
    (h : searchStep (.start task ws mpns now) w = some u) : Accounted u ∧ WithinLimits u := by
  obtain ⟨hnow, clean, hlen, rfl⟩ := start_some h
  have hrec : ∀ ws', unrecorded (if ((w.tracker.prune ws now).verdict ws mpns.length).allow
      then w.tasks ++ [(task, ⟨ws, .looking clean⟩)] else w.tasks) ws' = unrecorded w.tasks ws' := by
    intro ws'
    split
    next => simp [unrecorded, SearchTask.unrecorded, tally_singleton]
    next => rfl
  constructor
  · refine ⟨fun f hf => (hacc.past f hf).trans hnow, ?_, ?_⟩
    · intro ws' v hv e he
      rw [eventsOf_prune _ _ _ _ hv] at he
      split at he
      next => exact hacc.counted ws' v hv e (List.mem_of_mem_filter he)
      next => exact hacc.counted ws' v hv e he
    · intro ws' v hv since hsince
      have hold : w.now - v ≤ since := by
        have hmono := sub_le_sub_right hnow (v : Seconds)
        exact hmono.trans hsince
      have hsame := recordedSince_prune w.tracker ws ws' hv hsince
      have hcount := hacc.recorded ws' v hv since hold
      show w.fetchesSince ws' since ≤ _
      rw [hsame, hrec]
      exact hcount
  · intro ws' l hl
    have hmono : w.fetchesSince ws' (now - l.1) ≤ w.fetchesSince ws' (w.now - l.1) :=
      fetchesSince_mono ws' (sub_le_sub_right hnow _)
    have hbefore := hwithin ws' l hl
    show w.fetchesSince ws' (now - l.1) + unfetched _ ws' ≤ l.2
    by_cases hallow : ((w.tracker.prune ws now).verdict ws mpns.length).allow = true
    · rw [if_pos hallow]
      have hnew : unfetched (w.tasks ++ [(task, ⟨ws, .looking clean⟩)]) ws' =
          unfetched w.tasks ws' + if ws = ws' then (mpns.length : ℤ) else 0 := by
        simp [unfetched, SearchTask.unfetched, tally_singleton, hlen]
      rw [hnew]
      by_cases hws : ws = ws'
      · subst hws
        -- The guard counts what the check could not see.
        have hsum := hguard hallow l hl
        rw [windowTotal_prune _ _ _ (mem_windows hl)] at hsum
        have hcount := hacc.recorded ws l.1 (mem_windows hl) (now - l.1)
          (sub_le_sub_right hnow _)
        rw [if_pos rfl]
        omega
      · rw [if_neg hws]
        omega
    · have hsame : unfetched (if ((w.tracker.prune ws now).verdict ws mpns.length).allow
          then w.tasks ++ [(task, ⟨ws, .looking clean⟩)] else w.tasks) ws' =
          unfetched w.tasks ws' := by rw [if_neg hallow]
      rw [hsame]
      omega

theorem cacheHit_preserves (hacc : Accounted w)
    (hwithin : WithinLimits w) (h : searchStep (.cacheHit task now) w = some u) :
    Accounted u ∧ WithinLimits u := by
  simp only [searchStep] at h
  split at h
  next hnow =>
    obtain ⟨found, hfound, rfl⟩ := Option.map_eq_some_iff.mp h
    obtain ⟨mpn, hfind⟩ := looking_some hfound
    constructor
    · refine ⟨fun f hf => (hacc.past f hf).trans hnow, hacc.counted, ?_⟩
      intro ws v hv since hsince
      have hold : w.now - v ≤ since := (sub_le_sub_right hnow _).trans hsince
      have hcount := hacc.recorded ws v hv since hold
      have hput := unrecorded_put ws ⟨found.1, .looking found.2⟩ hfind rfl
      simp only [SearchTask.unrecorded, sub_self, ite_self, add_zero] at hput
      show w.fetchesSince ws since ≤ w.tracker.recordedSince ws v since +
        unrecorded (Dict.put task ⟨found.1, .looking found.2⟩ w.tasks) ws
      omega
    · intro ws l hl
      have hmono : w.fetchesSince ws (now - l.1) ≤ w.fetchesSince ws (w.now - l.1) :=
        fetchesSince_mono ws (sub_le_sub_right hnow _)
      have hbefore := hwithin ws l hl
      have hput := unfetched_put ws ⟨found.1, .looking found.2⟩ hfind rfl
      simp only [SearchTask.unfetched, List.length_cons] at hput
      show w.fetchesSince ws (now - l.1) +
        unfetched (Dict.put task ⟨found.1, .looking found.2⟩ w.tasks) ws ≤ l.2
      split at hput <;> push_cast at hput <;> omega
  next => cases h

theorem fetch_preserves (hacc : Accounted w)
    (hwithin : WithinLimits w) (h : searchStep (.fetch task now) w = some u) :
    Accounted u ∧ WithinLimits u := by
  simp only [searchStep] at h
  split at h
  next hnow =>
    obtain ⟨found, hfound, rfl⟩ := Option.map_eq_some_iff.mp h
    obtain ⟨mpn, hfind⟩ := looking_some hfound
    have hfetches : ∀ ws since, tally (fun f : Uuid × Seconds => f.1 = ws ∧ since ≤ f.2)
        (fun _ => (1 : ℤ)) (w.fetches ++ [(found.1, now)]) =
          w.fetchesSince ws since + if found.1 = ws ∧ since ≤ now then 1 else 0 := by
      intro ws since
      rw [tally_append, tally_singleton]
      rfl
    have hone : ∀ ws since, (if found.1 = ws ∧ since ≤ now then (1 : ℤ) else 0) ≤
        if found.1 = ws then 1 else 0 := by
      intro ws since
      by_cases hws : found.1 = ws
      · rw [if_pos hws]
        split <;> omega
      · simp [hws]
    constructor
    · refine ⟨?_, hacc.counted, ?_⟩
      · intro f hf
        rcases List.mem_append.mp hf with hold | hnew
        · exact (hacc.past f hold).trans hnow
        · rw [List.mem_singleton.mp hnew]
      · intro ws v hv since hsince
        have hold : w.now - v ≤ since := (sub_le_sub_right hnow _).trans hsince
        have hcount := hacc.recorded ws v hv since hold
        have hput := unrecorded_put ws ⟨found.1, .recording found.2⟩ hfind rfl
        simp only [SearchTask.unrecorded, sub_zero] at hput
        have hnew := hone ws since
        show tally _ _ (w.fetches ++ _) ≤ w.tracker.recordedSince ws v since +
          unrecorded (Dict.put task ⟨found.1, .recording found.2⟩ w.tasks) ws
        rw [hfetches, hput]
        omega
    · intro ws l hl
      have hmono : w.fetchesSince ws (now - l.1) ≤ w.fetchesSince ws (w.now - l.1) :=
        fetchesSince_mono ws (sub_le_sub_right hnow _)
      have hbefore := hwithin ws l hl
      have hput := unfetched_put ws ⟨found.1, .recording found.2⟩ hfind rfl
      simp only [SearchTask.unfetched, List.length_cons] at hput
      have hnew := hone ws (now - l.1)
      show tally (fun f : Uuid × Seconds => f.1 = ws ∧ now - l.1 ≤ f.2) _ (w.fetches ++ _) +
        unfetched (Dict.put task ⟨found.1, .recording found.2⟩ w.tasks) ws ≤ l.2
      rw [hfetches, hput]
      by_cases hws : found.1 = ws
      · rw [if_pos hws] at hnew ⊢
        push_cast
        omega
      · rw [if_neg hws] at hnew ⊢
        omega
  next => cases h

theorem record_preserves {now pruneNow : Seconds} (hacc : Accounted w) (hwithin : WithinLimits w)
    (h : searchStep (.record task now pruneNow) w = some u) : Accounted u ∧ WithinLimits u := by
  simp only [searchStep] at h
  split at h
  next hclock =>
    obtain ⟨found, hfound, hrest⟩ := Option.bind_eq_some_iff.mp h
    have hfind := recording_some hfound
    split at hrest
    next => cases hrest
    next tracker hrecord =>
      obtain ⟨_, rfl⟩ := record_ok hrecord
      obtain rfl := Option.some.inj hrest
      have hnow : w.now ≤ pruneNow := hclock.1.trans hclock.2
      constructor
      · refine ⟨fun f hf => (hacc.past f hf).trans hnow, ?_, ?_⟩
        · intro ws v hv e he
          rw [eventsOf_prune _ _ _ _ hv, eventsOf_append _ _ _ _ hv] at he
          have hmem : e ∈ w.tracker.eventsOf ws v ∨ e = (now, 1) := by
            split at he
            next =>
              have hall := List.mem_of_mem_filter he
              simpa using hall
            next => exact .inl he
          rcases hmem with hold | rfl
          · exact hacc.counted ws v hv e hold
          · exact zero_le_one
        · intro ws v hv since hsince
          have hold : w.now - v ≤ since := (sub_le_sub_right hnow _).trans hsince
          have hcount := hacc.recorded ws v hv since hold
          have hput := unrecorded_put ws ⟨found.1, .looking found.2⟩ hfind rfl
          simp only [SearchTask.unrecorded] at hput
          show w.fetchesSince ws since ≤
            ((w.tracker.append found.1 (now, 1)).prune found.1 pruneNow).recordedSince ws v since +
              unrecorded (Dict.put task ⟨found.1, .looking found.2⟩ w.tasks) ws
          rw [recordedSince_prune _ _ _ hv hsince, recordedSince_append _ _ _ _ hv]
          by_cases hws : ws = found.1
          · rw [if_pos hws.symm] at hput
            by_cases hlate : since ≤ now
            · rw [if_pos ⟨hws, hlate⟩]
              omega
            · -- Later than every request so far: there is nothing to count.
              have hnone : w.fetchesSince ws since = 0 := by
                apply tally_eq_zero
                intro f hf hcond
                exact hlate (hcond.2.trans ((hacc.past f hf).trans hclock.1))
              have hrecorded : 0 ≤ w.tracker.recordedSince ws v since := by
                apply tally_nonneg
                intro e he _
                exact hacc.counted ws v hv e he
              have hafter := unrecorded_nonneg (Dict.put task ⟨found.1, .looking found.2⟩ w.tasks) ws
              rw [hnone, if_neg fun hc => hlate hc.2]
              omega
          · rw [if_neg fun heq => hws heq.symm] at hput
            rw [if_neg fun hc => hws hc.1]
            omega
      · intro ws l hl
        have hmono : w.fetchesSince ws (pruneNow - l.1) ≤ w.fetchesSince ws (w.now - l.1) :=
          fetchesSince_mono ws (sub_le_sub_right hnow _)
        have hbefore := hwithin ws l hl
        have hput := unfetched_put ws ⟨found.1, .looking found.2⟩ hfind rfl
        simp only [SearchTask.unfetched, sub_self, ite_self, add_zero] at hput
        show w.fetchesSince ws (pruneNow - l.1) +
          unfetched (Dict.put task ⟨found.1, .looking found.2⟩ w.tasks) ws ≤ l.2
        omega
  next => cases h

theorem searchStep_preserves (a : SearchStep) (w u : SearchWorld)
    (hw : Accounted w ∧ WithinLimits w) (hguard : countsInFlight a w)
    (h : searchStep a w = some u) : Accounted u ∧ WithinLimits u := by
  cases a with
  | start task ws mpns now => exact start_preserves hw.1 hw.2 hguard h
  | cacheHit task now => exact cacheHit_preserves hw.1 hw.2 h
  | fetch task now => exact fetch_preserves hw.1 hw.2 h
  | fetchRaises task now => exact absurd hguard (by simp [countsInFlight])
  | record task now pruneNow => exact record_preserves hw.1 hw.2 h

theorem initial_accounted : Accounted SearchWorld.initial ∧ WithinLimits SearchWorld.initial := by
  refine ⟨⟨by simp [SearchWorld.initial], ?_, ?_⟩, ?_⟩
  · intro ws v _ e he
    simp [SearchWorld.initial, eventsOf, Dict.find] at he
  · intro ws v _ since _
    exact le_rfl
  · intro ws l hl
    have hpos : ∀ l ∈ hardLimits, (0 : ℤ) ≤ l.2 := by decide
    simpa [SearchWorld.initial, SearchWorld.fetchesSince, unfetched] using hpos l hl

/-- A search that starts while none of its workspace is in flight counts
everything already. -/
theorem countsInFlight_of_idle (task : ℕ) (mpns : List String)
    (now : Seconds) (hidle : ∀ item ∈ w.tasks, item.2.workspaceId = ws → item.2.phase = .looking []) :
    countsInFlight (.start task ws mpns now) w := by
  intro hallow l hl
  have hzero : ∀ f : SearchTask → ℤ, (∀ t, t.phase = .looking [] → f t = 0) →
      tally (fun item : ℕ × SearchTask => item.2.workspaceId = ws) (fun item => f item.2)
        w.tasks = 0 := by
    intro f hf
    apply List.sum_eq_zero
    intro x hx
    obtain ⟨item, hitem, rfl⟩ := List.mem_map.mp hx
    have hmem := List.mem_filter.mp hitem
    exact hf _ (hidle item hmem.1 (by simpa using hmem.2))
  have hunfetched : unfetched w.tasks ws = 0 :=
    hzero SearchTask.unfetched fun t ht => by simp [SearchTask.unfetched, ht]
  have hunrecorded : unrecorded w.tasks ws = 0 :=
    hzero SearchTask.unrecorded fun t ht => by simp [SearchTask.unrecorded, ht]
  have hnone : (w.tracker.prune ws now).exceeded ws mpns.length hardLimits = none := by
    unfold verdict at hallow
    cases hexc : (w.tracker.prune ws now).exceeded ws mpns.length hardLimits with
    | none => rfl
    | some l => simp [hexc] at hallow
  have hle := List.find?_eq_none.mp hnone l hl
  simp only [decide_eq_true_eq, not_lt] at hle
  omega

/-- In a run whose checks count the requests in flight, no window ever holds more
requests than its hard limit. -/
theorem hardLimit_neverExceeded {acts : List SearchStep} {w : SearchWorld}
    (hmeets : Machine.Meets searchStep countsInFlight SearchWorld.initial acts)
    (hrun : Machine.run searchStep SearchWorld.initial acts = some w) (ws : Uuid) (l : ℕ × ℤ)
    (hl : l ∈ hardLimits) (moment : Seconds) (hmoment : w.now ≤ moment) :
    w.fetchesSince ws (moment - l.1) ≤ l.2 := by
  have hinv := Machine.run_invariant_of_meets searchStep_preserves initial_accounted hmeets hrun
  have hwithin := hinv.2 ws l hl
  have hmono : w.fetchesSince ws (moment - l.1) ≤ w.fetchesSince ws (w.now - l.1) :=
    fetchesSince_mono ws (sub_le_sub_right hmoment _)
  have hleft := unfetched_nonneg w.tasks ws
  omega

/-- One search of two MPNs, the second of them in the cache. -/
def oneSearch : List SearchStep :=
  [.start 0 1 ["LM358", "NE555"] 0, .fetch 0 1, .record 0 1 2, .cacheHit 0 3]

theorem hardLimit_neverExceeded_sample :
    ∃ w, Machine.run searchStep SearchWorld.initial oneSearch = some w ∧
      w.fetchesSince 1 (4 - (10 : ℕ)) ≤ 250 := by
  have hmeets : Machine.Meets searchStep countsInFlight SearchWorld.initial oneSearch := by
    refine ⟨countsInFlight_of_idle 0 _ 0 (by simp [SearchWorld.initial]), fun t _ => ?_⟩
    exact ⟨trivial, fun _ _ => ⟨trivial, fun _ _ => ⟨trivial, fun _ _ => trivial⟩⟩⟩
  have hsome : (Machine.run searchStep SearchWorld.initial oneSearch).map (·.now) = some 3 := by
    decide
  obtain ⟨w, hrun, hnow⟩ := Option.map_eq_some_iff.mp hsome
  refine ⟨w, hrun, ?_⟩
  exact hardLimit_neverExceeded hmeets hrun 1 (10, 250) (by decide) 4 (by rw [hnow]; norm_num)

/-- The searches of `ids`, one MPN each, are checked before any of them records. -/
def crowd (ids : List ℕ) : List SearchStep :=
  ids.map (fun id => .start id 1 ["LM358"] 0) ++ ids.map fun id => .fetch id 0

theorem run_starts (ids : List ℕ) (tasks : List (ℕ × SearchTask))
    (hnodup : (Dict.keys tasks ++ ids).Nodup) :
    Machine.run searchStep ⟨0, ⟨[]⟩, tasks, []⟩ (ids.map fun id => .start id 1 ["LM358"] 0) =
      some ⟨0, ⟨[]⟩, tasks ++ ids.map fun id => (id, ⟨1, .looking ["LM358"]⟩), []⟩ := by
  induction ids generalizing tasks with
  | nil => simp [Machine.run]
  | cons id ids ih =>
    have hfree : Dict.find id tasks = none := by
      rw [Dict.find_eq_none]
      intro hmem
      exact (List.nodup_append.mp hnodup).2.2 id hmem id (List.mem_cons_self ..) rfl
    have hclean : cleanMpns ["LM358"] = .ok ["LM358"] := by decide
    have hcheck : (BudgetTracker.mk []).check 1 1 0 =
        .ok (⟨true, .live, "within TrustedParts parts-count budget"⟩, ⟨[]⟩) := by decide
    have hstep : searchStep (.start id 1 ["LM358"] 0) ⟨0, ⟨[]⟩, tasks, []⟩ =
        some ⟨0, ⟨[]⟩, tasks ++ [(id, ⟨1, .looking ["LM358"]⟩)], []⟩ := by
      simp [searchStep, hfree, hclean, hcheck]
    have hrest : (Dict.keys (tasks ++ [(id, (⟨1, .looking ["LM358"]⟩ : SearchTask))]) ++ ids).Nodup := by
      simpa [Dict.keys] using hnodup
    rw [List.map_cons, Machine.run, hstep, Option.bind_some, ih _ hrest]
    simp

theorem run_fetches (ids : List ℕ) (tasks : List (ℕ × SearchTask)) (fetches : List (Uuid × Seconds))
    (hnodup : ids.Nodup)
    (htasks : ∀ id ∈ ids, Dict.find id tasks = some ⟨1, .looking ["LM358"]⟩) :
    ∃ after, Machine.run searchStep ⟨0, ⟨[]⟩, tasks, fetches⟩ (ids.map fun id => .fetch id 0) =
      some ⟨0, ⟨[]⟩, after, fetches ++ ids.map fun _ => (1, 0)⟩ := by
  induction ids generalizing tasks fetches with
  | nil => exact ⟨tasks, by simp [Machine.run]⟩
  | cons id ids ih =>
    have hcons := List.nodup_cons.mp hnodup
    have hfind := htasks id (List.mem_cons_self ..)
    have hstep : searchStep (.fetch id 0) ⟨0, ⟨[]⟩, tasks, fetches⟩ =
        some ⟨0, ⟨[]⟩, Dict.put id ⟨1, .recording []⟩ tasks, fetches ++ [(1, 0)]⟩ := by
      simp [searchStep, SearchWorld.looking, hfind]
    have hothers : ∀ j ∈ ids, Dict.find j (Dict.put id ⟨1, .recording []⟩ tasks) =
        some ⟨1, .looking ["LM358"]⟩ := by
      intro j hj
      have hne : id ≠ j := fun heq => hcons.1 (heq ▸ hj)
      rw [Dict.put, Dict.find_upsert_of_ne hne]
      exact htasks j (List.mem_cons_of_mem _ hj)
    obtain ⟨after, hafter⟩ := ih (Dict.put id ⟨1, .recording []⟩ tasks) (fetches ++ [(1, 0)])
      hcons.2 hothers
    refine ⟨after, ?_⟩
    rw [List.map_cons, Machine.run, hstep, Option.bind_some, hafter]
    simp

theorem crowd_fetches (ids : List ℕ) (hnodup : ids.Nodup) :
    ∃ w, Machine.run searchStep SearchWorld.initial (crowd ids) = some w ∧
      w.now = 0 ∧ w.fetchesSince 1 (0 - (10 : ℕ)) = ids.length := by
  have hstarts := run_starts ids [] (by simpa [Dict.keys] using hnodup)
  have htasks : ∀ id ∈ ids, Dict.find id ([] ++ ids.map fun id =>
      (id, (⟨1, .looking ["LM358"]⟩ : SearchTask))) = some ⟨1, .looking ["LM358"]⟩ := by
    intro id hid
    rw [List.nil_append, ← Dict.mem_iff_find (by simpa [Dict.keys, Function.comp_def] using hnodup)]
    exact List.mem_map_of_mem hid
  obtain ⟨after, hafter⟩ := run_fetches ids _ [] hnodup htasks
  refine ⟨_, Machine.run_append.mpr ⟨_, hstarts, hafter⟩, rfl, ?_⟩
  simp [SearchWorld.fetchesSince, tally]

/-- 251 searches of one MPN each, checked before the first request is recorded,
make 251 requests within ten seconds; the limit is 250. -/
theorem hardLimit_exceeded_by_crowd :
    ∃ w, Machine.run searchStep SearchWorld.initial (crowd (List.range 251)) = some w ∧
      (10, 250) ∈ hardLimits ∧ 250 < w.fetchesSince 1 (w.now - (10 : ℕ)) := by
  obtain ⟨w, hrun, hnow, hcount⟩ := crowd_fetches (List.range 251) List.nodup_range
  refine ⟨w, hrun, by decide, ?_⟩
  rw [hnow, hcount, List.length_range]
  norm_num

end StockManager
