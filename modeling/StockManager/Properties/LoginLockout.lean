import StockManager.Library.AdmissionWindow
import StockManager.Effects.AuthWrites

/-! # The lockout under overlapping sign-ins (core/auth.py)

The sign-ins of one address, in any letter case, are the tasks of a gate: the count admits one,
the flush of its failure gives the mark, the commit leaves the record. -/

namespace StockManager.Auth

open Sessions AdmissionWindow

variable {env : Env} {ι : Type} [DecidableEq ι] [Fintype ι] {emailHash : String}

def lockoutWindow : ℕ := lockoutWindowMinutes * microsPerMinute

/-- The address a sign-in names, as the failures are counted by it -/
def Request.signInHash (env : Env) : Request → Option String
  | .login payload _ => some (env.hashEmail payload.email)
  | _ => none

def failureTimes (emailHash : String) (s : State) : Multiset ℕ :=
  ((s.failures.filter (·.emailHash = emailHash)).map (·.occurredAt) : List ℕ)

theorem failureTimes_countP (emailHash : String) (p : ℕ → Prop) [DecidablePred p] (s : State) :
    (failureTimes emailHash s).countP p =
      s.failures.countP fun f => f.emailHash = emailHash ∧ p f.occurredAt := by
  rw [failureTimes, Multiset.coe_countP, List.countP_map, List.countP_filter]
  refine List.countP_congr fun f _ => ?_
  simp [and_comm]

theorem failureTimes_addFailure {emailHash : String} {row : UserLoginFailure}
    (h : row.emailHash = emailHash) (s : State) :
    failureTimes emailHash (s.addFailure row) = row.occurredAt ::ₘ failureTimes emailHash s := by
  have hfilter : (s.failures ++ [row]).filter (·.emailHash = emailHash) =
      s.failures.filter (·.emailHash = emailHash) ++ [row] := by simp [h]
  rw [failureTimes, failureTimes, State.addFailure, hfilter, List.map_append,
    ← Multiset.coe_add, add_comm]
  rfl

theorem failureTimes_le_recent (userId : Option Uuid) (emailHash : String) (cutoff : Timestamp)
    (s : State) :
    (failureTimes emailHash s).countP (cutoff ≤ ·) ≤ s.recentFailures userId emailHash cutoff := by
  rw [failureTimes_countP]
  refine List.countP_mono_left fun f _ hf => ?_
  simp only [decide_eq_true_eq] at hf ⊢
  exact ⟨hf.2, Or.inr hf.1⟩

theorem noneNew_apply (s : State) {x : Write}
    (hx : ∀ row, x = .addFailure row → row.emailHash ≠ emailHash) :
    NoneNew (failureTimes emailHash) s (x.apply s) := by
  have hfewer : ∀ t : State, t.now = s.now → t.failures.Sublist s.failures →
      NoneNew (failureTimes emailHash) s t := fun t hnow hsub =>
    ⟨hnow, ((hsub.filter _).map _).subperm⟩
  cases x with
  | addFailure row =>
    have hother : failureTimes emailHash (s.addFailure row) = failureTimes emailHash s := by
      simp [failureTimes, State.addFailure, hx row rfl]
    exact ⟨rfl, le_of_eq hother⟩
  | deleteFailures ids => exact hfewer _ rfl List.filter_sublist
  | setPassword loaded passwordHash origin =>
    refine hfewer _ (setPassword_now ..) ?_
    show (s.setPassword loaded passwordHash origin).failures.Sublist s.failures
    rw [setPassword_failures]
  | _ => exact hfewer _ rfl (List.Sublist.refl _)

abbrev signIns (env : Env) (requests : ι → Request) (emailHash : String) (k : ℕ) :
    Phases ι State Lock Phase :=
  census lockoutMaxFailures lockoutWindow k State.now (failureTimes emailHash) []
    fun i => (requests i).signInHash env = some emailHash

variable {requests : ι → Request} {k : ℕ} {i : ι}

theorem track_of_noneNew {x : AuthProg Unit}
    (h : changes (NoneNew (failureTimes emailHash)) x (fun _ _ => True) id) :
    (signIns env requests emailHash k).track i x (fun _ _ _ _ => True) id [] .idle :=
  Phases.track_of_changes (C := signIns env requests emailHash k)
    (fun _ _ _ hst => moves_forget hst.1.symm hst.2) h

theorem track_rejectLogin {payload : LoginIn} {draws : Draws}
    (hi : (requests i).signInHash env = some emailHash)
    (hhash : env.hashEmail payload.email = emailHash) :
    (signIns env requests emailHash k).track i (rejectLogin env payload draws)
      (fun _ _ _ _ => True) id [] .admitted := by
  unfold rejectLogin recordLoginFailure
  simp only [Phases.track_bind, Phases.track_ask, Phases.track_put, Phases.track_commitAs,
    Phases.track_fail]
  intro t
  refine ⟨.admitted, Phases.Moves.stay (List.nil_subset _) fun _ => hi, fun u => ?_⟩
  refine ⟨.stamped u.now, moves_stamp hi (List.nil_subset _), fun v => ⟨.idle, ?_, trivial⟩⟩
  exact moves_record rfl (failureTimes_addFailure hhash v)

theorem track_login {payload : LoginIn} {draws : Draws}
    (hi : (requests i).signInHash env = some emailHash)
    (hhash : env.hashEmail payload.email = emailHash) :
    (signIns env requests emailHash k).track i (login env payload draws)
      (fun _ _ _ _ => True) id [] .idle := by
  have hstay : ∀ φ t, (signIns env requests emailHash k).Moves i [] φ φ t t := fun φ t =>
    Phases.Moves.stay (by cases φ <;> exact List.nil_subset _) fun _ => hi
  unfold login checkLoginLockout
  simp only [Phases.track_bind, Phases.track_ask, Phases.track_pure, Phases.track_check]
  intro t
  refine ⟨.checking (t.now - lockoutWindow), moves_check hi (List.nil_subset _), fun u =>
    ⟨_, hstay _ u, fun v => ?_⟩⟩
  by_cases hcount : lockoutMaxFailures ≤ v.recentFailures
      (((id u).userByEmail? payload.email).map (·.id)) (env.hashEmail payload.email)
      (t.now - lockoutWindow)
  · refine ⟨_, hstay _ v, fun hopen => ?_⟩
    exact absurd hcount (of_decide_eq_false hopen)
  · refine ⟨.admitted, moves_enter hi (List.nil_subset _) ?_, fun _ x => ?_⟩
    · rw [hhash] at hcount
      exact Nat.lt_of_le_of_lt (failureTimes_le_recent _ _ _ _) (Nat.lt_of_not_le hcount)
    · cases passwordCheck env payload draws.salt ((id x).userByEmail? payload.email) with
      | none => exact ⟨.admitted, hstay _ x, track_rejectLogin hi hhash⟩
      | some accepted =>
        -- with the right password no failure is to come
        exact ⟨.idle, Phases.Moves.quit, track_of_noneNew (changes_mono
          (fun _ _ => NoneNew.of_made fun t x hx => noneNew_apply t fun row hrow => by
            subst hrow
            cases hx) changes_acceptLogin)⟩

theorem track_other {r : Request} (hr : r.signInHash env ≠ some emailHash) :
    (signIns env requests emailHash k).track i (r.prog env) (fun _ _ _ _ => True) id [] .idle := by
  refine track_of_noneNew (changes_mono (fun _ _ => NoneNew.of_made fun t x hx =>
    noneNew_apply t fun row hrow => ?_) r.changes_prog)
  subst hrow
  cases r with
  | login payload draws =>
    intro heq
    exact hr (congrArg some (hx.symm.trans heq))
  | purgePasswordResetRequests =>
    obtain ⟨ids, hids⟩ := hx
    cases hids
  | _ => exact False.elim hx

theorem track_prog : (signIns env requests emailHash k).track i ((requests i).prog env)
    (fun _ _ _ _ => True) id [] .idle := by
  by_cases hi : (requests i).signInHash env = some emailHash
  · cases hr : requests i with
    | login payload draws =>
      rw [hr] at hi
      exact track_login (by rw [hr]; exact hi) (Option.some.inj hi)
    | _ =>
      rw [hr] at hi
      cases hi
  · exact track_other hi

/-- The sign-ins under way that name the address -/
def signInsUnderWay (env : Env) (requests : ι → Request) (emailHash : String)
    (acts : List (Act ι ℕ)) (w : World ι State Lock Mark Refusal) : Set ι :=
  {i | (requests i).signInHash env = some emailHash ∧ w.Busy acts i}

/-- An address's failures from a time on, as long as the lockout counts them -/
def failuresWithin (emailHash : String) (T : Timestamp) (s : State) : ℕ :=
  s.failures.countP fun f =>
    f.emailHash = emailHash ∧ T ≤ f.occurredAt ∧ f.occurredAt ≤ T + lockoutWindow

theorem marksIn_failureTimes (emailHash : String) (T : Timestamp) (s : State) :
    marksIn lockoutWindow T (failureTimes emailHash s) = failuresWithin emailHash T s :=
  failureTimes_countP emailHash (fun m => T ≤ m ∧ m ≤ T + lockoutWindow) s

/-- While no more than `k` sign-ins that name an address overlap, no fifteen minutes hold more than
`9 + k` failures of the address, whatever else runs and whoever loses the connection. -/
theorem failuresWithin_le {s : State} {k : ℕ} {acts : List (Act ι ℕ)}
    {w : World ι State Lock Mark Refusal}
    (hstart : ∀ T, failuresWithin emailHash T s ≤ lockoutMaxFailures - 1 + k)
    (hrun : Machine.run step (start s fun i => (requests i).prog env) acts = some w)
    (hoverlap : ∀ before w', before <+: acts →
      Machine.run step (start s fun i => (requests i).prog env) before = some w' →
      (signInsUnderWay env requests emailHash before w').ncard ≤ k) (T : Timestamp) :
    failuresWithin emailHash T w.committed ≤ lockoutMaxFailures - 1 + k := by
  have hclock : ∀ e t, t.now ≤ (clock e t).now ∧
      failureTimes emailHash (clock e t) = failureTimes emailHash t := fun _ _ =>
    ⟨Nat.le_add_right _ _, rfl⟩
  rw [← marksIn_failureTimes]
  refine marksIn_le_of_run lockoutMaxFailures lockoutWindow k State.now (failureTimes emailHash) []
    (fun i => (requests i).signInHash env = some emailHash)
    hclock (fun T => ?_) (fun i => track_prog) hrun
    (fun before w' hprefix hbefore φs hfits => ?_) T
  · rw [marksIn_failureTimes]
    exact hstart T
  · exact Nat.le_trans (tasksOf_card_le fun i hi => hfits.busy i hi)
      (hoverlap before w' hprefix hbefore)

theorem failuresWithin_le_sample : ∃ w, Machine.run step sampleStart sampleActs = some w ∧
    failuresWithin "a@b.c" 1000000000000 w.committed ≤ lockoutMaxFailures - 1 + 1 := by
  have hruns : (Machine.run step sampleStart sampleActs).isSome = true := by decide
  obtain ⟨w, hw⟩ := Option.isSome_iff_exists.mp hruns
  have hnone : ∀ T, failuresWithin "a@b.c" T sampleState ≤ lockoutMaxFailures - 1 + 1 := fun T =>
    Nat.zero_le _
  refine ⟨w, hw, failuresWithin_le hnone hw (fun before w' _ _ => ?_) _⟩
  refine (Set.ncard_le_one_iff (Set.toFinite _)).mpr fun {a b} ha hb => ?_
  have hone : ∀ i, (sampleRequests i).signInHash sampleEnv = some "a@b.c" → i = (false, true) := by
    decide
  exact (hone a ha.1).trans (hone b hb.1).symm

end StockManager.Auth
