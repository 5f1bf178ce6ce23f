import StockManager.Library.AdmissionWindow
import StockManager.Properties.Accounts

/-! # Reset links under overlapping requests (api/routes/auth.py)

The requests that name one address are the tasks of a gate that a lock keeps to one at a time:
a request that does not get the lock mints no token. -/

namespace StockManager.Auth

open Sessions AdmissionWindow

variable {env : Env} {ι : Type} [DecidableEq ι] [Fintype ι] {emailHash : String}

def tokenTimes (emailHash : String) (s : State) : Multiset ℕ :=
  ((s.resetRequests.filter fun r => r.emailHash = emailHash ∧ r.tokenHmac ≠ none).map
    (·.createdAt) : List ℕ)

theorem tokenTimes_countP (emailHash : String) (p : ℕ → Prop) [DecidablePred p] (s : State) :
    (tokenTimes emailHash s).countP p = s.resetRequests.countP fun r =>
      r.emailHash = emailHash ∧ r.tokenHmac ≠ none ∧ p r.createdAt := by
  rw [tokenTimes, Multiset.coe_countP, List.countP_map, List.countP_filter]
  refine List.countP_congr fun r _ => ?_
  simp only [Function.comp_apply, Bool.and_eq_true, decide_eq_true_eq]
  tauto

theorem tokenTimes_le_recent (emailHash : String) (cutoff : Timestamp) (s : State) :
    (tokenTimes emailHash s).countP (cutoff ≤ ·) ≤ s.recentResetRequests emailHash cutoff := by
  rw [tokenTimes_countP]
  refine List.countP_mono_left fun r _ hr => ?_
  simp only [decide_eq_true_eq] at hr ⊢
  exact ⟨hr.1, hr.2.2⟩

theorem tokenTimes_addResetRequest {row : PasswordResetRequest} (h : row.emailHash = emailHash)
    (htoken : row.tokenHmac ≠ none) (s : State) :
    tokenTimes emailHash (s.addResetRequest row) = row.createdAt ::ₘ tokenTimes emailHash s := by
  have hfilter : (s.resetRequests ++ [row]).filter (fun r =>
      r.emailHash = emailHash ∧ r.tokenHmac ≠ none) = s.resetRequests.filter (fun r =>
        r.emailHash = emailHash ∧ r.tokenHmac ≠ none) ++ [row] := by
    simp [h, htoken]
  rw [tokenTimes, tokenTimes, State.addResetRequest, hfilter, List.map_append,
    ← Multiset.coe_add, add_comm]
  rfl

theorem tokenTimes_used (requestId : Uuid) (usedAt : Timestamp) (s : State) :
    tokenTimes emailHash ((Write.used requestId usedAt).apply s) = tokenTimes emailHash s := by
  rw [tokenTimes, tokenTimes]
  refine congrArg _ ?_
  show List.map _ (List.filter _ (s.resetRequests.map _)) = _
  rw [List.filter_map, List.map_map]
  have hsame : ∀ r : PasswordResetRequest,
      (if r.id = requestId then { r with usedAt := some usedAt } else r).emailHash = r.emailHash ∧
      (if r.id = requestId then { r with usedAt := some usedAt } else r).tokenHmac = r.tokenHmac ∧
      (if r.id = requestId then { r with usedAt := some usedAt } else r).createdAt =
        r.createdAt := by
    intro r
    split <;> exact ⟨rfl, rfl, rfl⟩
  simp [Function.comp_def, hsame]

theorem noneNew_token {x : Write} (s : State) (hx : ∀ row, x = .addResetRequest row →
    row.emailHash ≠ emailHash ∨ row.tokenHmac = none) :
    NoneNew (tokenTimes emailHash) s (x.apply s) := by
  have hfewer : ∀ t : State, t.now = s.now → t.resetRequests.Sublist s.resetRequests →
      NoneNew (tokenTimes emailHash) s t := fun t hnow hsub =>
    ⟨hnow, ((hsub.filter _).map _).subperm⟩
  cases x with
  | addResetRequest row =>
    have hother : tokenTimes emailHash (s.addResetRequest row) = tokenTimes emailHash s := by
      rcases hx row rfl with h | h <;> simp [tokenTimes, State.addResetRequest, h]
    exact ⟨rfl, le_of_eq hother⟩
  | deleteResetRequests ids => exact hfewer _ rfl List.filter_sublist
  | setPassword loaded passwordHash origin =>
    refine hfewer _ (setPassword_now ..) ?_
    show (s.setPassword loaded passwordHash origin).resetRequests.Sublist s.resetRequests
    rw [setPassword_resetRequests]
  | used requestId usedAt => exact ⟨rfl, le_of_eq (tokenTimes_used ..)⟩
  | _ => exact hfewer _ rfl (List.Sublist.refl _)

def Request.resetHash (env : Env) : Request → Option String
  | .requestPasswordReset email _ => some (env.hashEmail (env.lower (strip email)))
  | _ => none

def throttleLock (env : Env) (emailHash : String) : Lock :=
  .resetThrottle (env.hashtext ("reset:" ++ emailHash))

abbrev resetsOf (env : Env) (requests : ι → Request) (emailHash : String) :
    Phases ι State Lock Phase :=
  census passwordResetEmailLimit microsPerHour 1 State.now (tokenTimes emailHash)
    [throttleLock env emailHash] fun i => (requests i).resetHash env = some emailHash

variable {requests : ι → Request} {i : ι}

theorem track_of_noneNew_token {x : AuthProg Unit} {held : List Lock}
    (h : changes (NoneNew (tokenTimes emailHash)) x (fun _ _ => True) id) :
    (resetsOf env requests emailHash).track i x (fun _ _ _ _ => True) id held .idle :=
  Phases.track_of_changes (C := resetsOf env requests emailHash)
    (fun _ _ _ hst => moves_forget hst.1.symm hst.2) h

theorem changes_throttled {draws : Draws} {found : Option User} {now : Timestamp}
    {comment : String} : changes (NoneNew (tokenTimes emailHash))
      (requestPasswordResetRow env emailHash draws found now (some comment)) (fun _ _ => True)
        id := by
  unfold requestPasswordResetRow
  cases found with
  | none => exact ⟨fun _ => ⟨rfl, le_refl _⟩, trivial⟩
  | some user =>
    simp only [changes_bind, changes_ask, reduceCtorEq, if_false]
    intro _
    unfold insertResetRequest
    simp only [changes_bind, changes_ask, changes_take, changes_check, changes_put,
      changes_commitAs]
    refine fun _ _ => ⟨fun t => ?_, trivial⟩
    exact noneNew_token (x := .addResetRequest _) t fun row hrow =>
      Or.inr (Write.addResetRequest.inj hrow ▸ rfl)

theorem track_minting {draws : Draws} {found : Option User} {now : Timestamp}
    (hi : (requests i).resetHash env = some emailHash) :
    (resetsOf env requests emailHash).track i
      (requestPasswordResetRow env emailHash draws found now none) (fun _ _ _ _ => True) id
        [throttleLock env emailHash] .admitted := by
  unfold requestPasswordResetRow
  cases found with
  | none => exact fun t => ⟨.idle, Phases.Moves.quit, trivial⟩
  | some user =>
    unfold insertResetRequest
    simp only [Phases.track_bind, Phases.track_ask, Phases.track_take, Phases.track_check,
      Phases.track_put, Phases.track_commitAs, if_true]
    intro t
    refine ⟨.stamped t.now, moves_stamp hi (List.Subset.refl _), fun u => ?_⟩
    refine ⟨.stamped t.now, Phases.Moves.stay (List.subset_cons_self _ _) fun _ => hi,
      fun _ v => ?_⟩
    refine ⟨.idle, moves_record rfl ?_, trivial⟩
    exact @tokenTimes_addResetRequest emailHash ⟨draws.newId, some user.id, emailHash, _, t.now, _,
      _, _, _⟩ rfl (Option.some_ne_none _) v

theorem track_requestPasswordReset {email : String} {draws : Draws}
    (hi : (requests i).resetHash env = some emailHash)
    (hhash : env.hashEmail (env.lower (strip email)) = emailHash) :
    (resetsOf env requests emailHash).track i (requestPasswordReset env email draws)
      (fun _ _ _ _ => True) id [] .idle := by
  unfold requestPasswordReset passwordResetRequestThrottleComment
  simp only [Phases.track_bind, Phases.track_ask, Phases.track_tryTake, hhash]
  intro t
  refine ⟨.idle, Phases.Moves.idle_stay, fun u => ⟨.idle, Phases.Moves.idle_stay, ?_, ?_⟩⟩
  · simp only [if_true, Phases.track_bind, Phases.track_ask, Phases.track_pure]
    intro v
    refine ⟨.checking (v.now - microsPerHour), moves_check hi (List.Subset.refl _), fun x => ?_⟩
    by_cases hcount : passwordResetEmailLimit ≤ x.recentResetRequests emailHash
        (v.now - microsPerHour)
    · refine ⟨.idle, Phases.Moves.quit, ?_⟩
      rw [if_pos (by exact hcount)]
      exact track_of_noneNew_token changes_throttled
    · refine ⟨.admitted, moves_enter hi (List.Subset.refl _) ?_, ?_⟩
      · exact Nat.lt_of_le_of_lt (tokenTimes_le_recent _ _ _) (Nat.lt_of_not_le hcount)
      · rw [if_neg (by exact hcount)]
        exact track_minting hi
  · exact track_of_noneNew_token changes_throttled

theorem track_other_address {r : Request} (hr : r.resetHash env ≠ some emailHash) :
    (resetsOf env requests emailHash).track i (r.prog env) (fun _ _ _ _ => True) id [] .idle := by
  refine track_of_noneNew_token (changes_mono (fun _ _ => NoneNew.of_made fun t x hx =>
    noneNew_token t fun row hrow => Or.inl ?_) r.changes_prog)
  subst hrow
  cases r with
  | requestPasswordReset email draws =>
    intro heq
    exact hr (congrArg some (hx.symm.trans heq))
  | purgePasswordResetRequests =>
    obtain ⟨ids, hids⟩ := hx
    cases hids
  | _ => exact False.elim hx

theorem track_reset_prog : (resetsOf env requests emailHash).track i ((requests i).prog env)
    (fun _ _ _ _ => True) id [] .idle := by
  by_cases hi : (requests i).resetHash env = some emailHash
  · cases hr : requests i with
    | requestPasswordReset email draws =>
      rw [hr] at hi
      exact track_requestPasswordReset (by rw [hr]; exact hi) (Option.some.inj hi)
    | _ =>
      rw [hr] at hi
      cases hi
  · exact track_other_address hi

/-- An address's tokens that were minted in the hour from a time on -/
def tokensWithin (emailHash : String) (T : Timestamp) (s : State) : ℕ :=
  s.resetRequests.countP fun r => r.emailHash = emailHash ∧ r.tokenHmac ≠ none ∧
    T ≤ r.createdAt ∧ r.createdAt ≤ T + microsPerHour

theorem marksIn_tokenTimes (emailHash : String) (T : Timestamp) (s : State) :
    marksIn microsPerHour T (tokenTimes emailHash s) = tokensWithin emailHash T s :=
  tokenTimes_countP emailHash (fun m => T ≤ m ∧ m ≤ T + microsPerHour) s

theorem room_of_fits {acts : List (Act ι ℕ)} {w : World ι State Lock Mark Refusal}
    {φs : ι → Phase} (hfits : Fits (resetsOf env requests emailHash) acts w φs) :
    (tasksOf φs).card ≤ 1 := by
  have hlock : ∀ i, φs i ≠ .idle → throttleLock env emailHash ∈ w.held i := by
    intro i hi
    have hneeds := hfits.needs i
    cases hφ : φs i with
    | idle => exact absurd hφ hi
    | _ =>
      rw [hφ] at hneeds
      exact hneeds (List.mem_singleton_self _)
  refine Nat.le_trans (@tasksOf_card_le ι _ {i | φs i ≠ .idle} φs fun i hi => hi) ?_
  refine (Set.ncard_le_one_iff (Set.toFinite _)).mpr fun {a b} ha hb => ?_
  by_contra hne
  exact hfits.exclusive a b hne _ (hlock a ha) (hlock b hb)

theorem tokensWithin_le {s : State} {acts : List (Act ι ℕ)} {w : World ι State Lock Mark Refusal}
    (hstart : ∀ T, tokensWithin emailHash T s ≤ passwordResetEmailLimit)
    (hrun : Machine.run step (start s fun i => (requests i).prog env) acts = some w)
    (T : Timestamp) : tokensWithin emailHash T w.committed ≤ passwordResetEmailLimit := by
  have hclock : ∀ e t, t.now ≤ (clock e t).now ∧
      tokenTimes emailHash (clock e t) = tokenTimes emailHash t := fun _ _ =>
    ⟨Nat.le_add_right _ _, rfl⟩
  rw [← marksIn_tokenTimes]
  refine marksIn_le_of_run passwordResetEmailLimit microsPerHour 1 State.now
    (tokenTimes emailHash) [throttleLock env emailHash]
    (fun i => (requests i).resetHash env = some emailHash) hclock (fun T => ?_)
    (fun i => track_reset_prog) hrun (fun _ _ _ _ φs hfits => room_of_fits hfits) T
  rw [marksIn_tokenTimes]
  exact hstart T

/-- Whatever requests overlap: no hour sees more than three links minted for an address, and every
link is of an account whose address is, up to case, the one that was asked about. -/
theorem resetLinks_limited {s : State} {acts : List (Act ι ℕ)}
    {w : World ι State Lock Mark Refusal} (hstart : Fresh s)
    (hfresh : Machine.Meets step (World.Granted FreshIds)
      (start s fun i => (requests i).prog env) acts)
    (hrun : Machine.run step (start s fun i => (requests i).prog env) acts = some w) :
    (∀ emailHash T, tokensWithin emailHash T w.committed ≤ passwordResetEmailLimit) ∧
      ∀ r ∈ w.committed.resetRequests, SentTo env w.committed.users r := by
  refine ⟨fun emailHash T => tokensWithin_le (fun T => ?_) hrun T,
    (accounts_of_run hstart.accounts hfresh hrun).sentTo⟩
  rw [tokensWithin, hstart.2.2.1]
  exact Nat.zero_le _

theorem resetLinks_limited_sample : ∃ w, Machine.run step sampleStart sampleReset = some w ∧
    (∀ emailHash T, tokensWithin emailHash T w.committed ≤ passwordResetEmailLimit) ∧
      ∀ r ∈ w.committed.resetRequests, SentTo sampleEnv w.committed.users r := by
  have hruns : (Machine.run step sampleStart sampleReset).isSome = true := by decide
  have hfresh : Machine.Meets step (World.Granted FreshIds) sampleStart sampleReset := by
    decide
  obtain ⟨w, hw⟩ := Option.isSome_iff_exists.mp hruns
  exact ⟨w, hw, resetLinks_limited ⟨rfl, rfl, rfl, rfl⟩ hfresh hw⟩

end StockManager.Auth
