import Mathlib.Data.Fintype.Prod
import StockManager.Library.SessionPhases
import StockManager.Model.Auth

/-! # What the requests write (core/auth.py, api/routes/auth.py)

Each commit of a request makes some of the writes that are its own to make. -/

namespace StockManager.Auth

open Sessions

variable {draws : Draws} {s t : State} {userId : Uuid} {email : String} {payload : LoginIn}

inductive Write
  | addUser (row : User)
  | addSession (row : UserSession)
  | addFailure (row : UserLoginFailure)
  | addResetRequest (row : PasswordResetRequest)
  | addPending (row : PendingUser)
  | deleteSessions (hashes : List String)
  | deleteFailures (ids : List Uuid)
  | deletePending (ids : List Uuid)
  | deleteResetRequests (ids : List Uuid)
  | signedIn (userId : Uuid) (lastLoginAt : Timestamp)
  | setPassword (loaded : User) (passwordHash : String) (origin : Origin)
  | used (requestId : Uuid) (usedAt : Timestamp)
  | verified (pendingId : Uuid) (verifiedAt : Timestamp)

def Write.apply : Write → State → State
  | addUser row, s => s.addUser row
  | addSession row, s => s.addSession row
  | addFailure row, s => s.addFailure row
  | addResetRequest row, s => s.addResetRequest row
  | addPending row, s => s.addPending row
  | deleteSessions hashes, s => s.deleteSessions hashes
  | deleteFailures ids, s => s.deleteFailures ids
  | deletePending ids, s => s.deletePending ids
  | deleteResetRequests ids, s => s.deleteResetRequests ids
  | signedIn userId lastLoginAt, s => s.updateUser userId fun u =>
    { u with lastLoginAt := some lastLoginAt }
  | setPassword loaded passwordHash origin, s => s.setPassword loaded passwordHash origin
  | used requestId usedAt, s => s.updateResetRequest requestId fun r =>
    { r with usedAt := some usedAt }
  | verified pendingId verifiedAt, s => s.updatePending pendingId fun p =>
    { p with verifiedAt := some verifiedAt }

/-- Only such writes lie between the two states. -/
inductive Made (own : Write → Prop) (s : State) : State → Prop
  | refl : Made own s s
  | step {t : State} {x : Write} : Made own s t → own x → Made own s (x.apply t)

theorem Made.kept {own : Write → Prop} {R : State → State → Prop}
    (h : Made own s t) (hrefl : R s s) (hstep : ∀ t x, R s t → own x → R s (x.apply t)) :
    R s t := by
  induction h with
  | refl => exact hrefl
  | step _ hx ih => exact hstep _ _ ih hx

theorem Made.mono {own own' : Write → Prop} (h : ∀ x, own x → own' x)
    (hst : Made own s t) : Made own' s t :=
  hst.kept .refl fun _ _ ht hx => ht.step (h _ hx)

def NoneNew (times : State → Multiset ℕ) (s t : State) : Prop := t.now = s.now ∧ times t ≤ times s

theorem NoneNew.of_made {times : State → Multiset ℕ} {own : Write → Prop}
    (hown : ∀ t x, own x → NoneNew times t (x.apply t)) (h : Made own s t) : NoneNew times s t :=
  h.kept ⟨rfl, le_refl _⟩ fun _ _ ht hx =>
    ⟨(hown _ _ hx).1.trans ht.1, le_trans (hown _ _ hx).2 ht.2⟩

section SetPassword

variable (s : State) (loaded : User) (passwordHash : String) (origin : Origin)

@[simp] theorem setPassword_now : (s.setPassword loaded passwordHash origin).now = s.now := by
  unfold State.setPassword
  split <;> rfl

@[simp] theorem setPassword_failures :
    (s.setPassword loaded passwordHash origin).failures = s.failures := by
  unfold State.setPassword
  split <;> rfl

@[simp] theorem setPassword_resetRequests :
    (s.setPassword loaded passwordHash origin).resetRequests = s.resetRequests := by
  unfold State.setPassword
  split <;> rfl

@[simp] theorem setPassword_pending :
    (s.setPassword loaded passwordHash origin).pending = s.pending := by
  unfold State.setPassword
  split <;> rfl

end SetPassword

def Write.OfSessions : Write → Prop
  | addSession _ => True
  | deleteSessions _ => True
  | _ => False

variable (env : Env)

def Write.OfSuccess (payload : LoginIn) : Write → Prop
  | deleteFailures _ => True
  | setPassword loaded _ origin => origin = .rehashed loaded.passwordHash payload.password
  | signedIn _ _ => True
  | x => x.OfSessions

def Write.OfReset (payload : PasswordResetIn) : Write → Prop
  | used _ _ => True
  | setPassword _ _ origin => ∃ requestId, origin = .reset requestId payload.newPassword
  | deleteFailures _ => True
  | x => x.OfSessions

def Write.OfSignup : Write → Prop
  | addUser _ => True
  | addPending _ => True
  | deletePending _ => True
  | signedIn _ _ => True
  | verified _ _ => True
  | x => x.OfSessions

def Request.MayWrite : Request → Write → Prop
  | .login payload _, .addFailure row => row.emailHash = env.hashEmail payload.email
  | .login payload _, x => x.OfSuccess payload
  | .logout _, x => x.OfSessions
  | .requestPasswordReset email _, .addResetRequest row =>
    row.emailHash = env.hashEmail (env.lower (strip email))
  | .requestPasswordReset _ _, _ => False
  | .resetPassword payload _, x => x.OfReset payload
  | .signup _ _, x => x.OfSignup
  | .verify _ _, x => x.OfSignup
  | .purgeExpiredSessions, x => x.OfSessions
  | .purgePasswordResetRequests, x => ∃ ids, x = .deleteResetRequests ids

variable {env} {own : Write → Prop} {Q : Unit → (State → State) → Prop} {pending : State → State}

theorem changes_createSessionRow (hQ : ∀ row, Q () ((Write.addSession row).apply ∘ pending)) :
    changes (Made own) (createSessionRow env userId draws) Q pending := by
  unfold createSessionRow
  simp only [changes_bind, changes_ask, changes_take, changes_check, changes_put]
  exact fun _ _ _ _ => hQ _

theorem changes_clearLoginFailures (hnone : Q () pending)
    (hsome : ∀ ids, Q () ((Write.deleteFailures ids).apply ∘ pending)) :
    changes (Made own) (clearLoginFailures email) Q pending := by
  unfold clearLoginFailures
  rw [changes_bind, changes_ask]
  intro t
  cases (pending t).userByEmail? email with
  | none => exact hnone
  | some user =>
    simp only [changes_bind, changes_ask, changes_takeAll, changes_put]
    exact fun _ => hsome _

theorem changes_revokeAllUserSessions {changed : State → State} {rows : List Lock}
    (hmade : ∀ t, Made own t (changed (pending t)))
    (hdelete : ∀ hashes, own (.deleteSessions hashes)) (hQ : Q () id) :
    changes (Made own) (revokeAllUserSessions userId changed rows) Q pending := by
  unfold revokeAllUserSessions
  simp only [changes_bind, changes_ask, changes_takeAll, changes_put, changes_commitAs]
  exact fun _ => ⟨fun t => (hmade t).step (hdelete _), hQ⟩

theorem changes_startSession (hown : ∀ x, x.OfSessions → own x)
    (hsigned : ∀ userId lastLoginAt, own (.signedIn userId lastLoginAt))
    (hmade : ∀ t, Made own t (pending t)) (hQ : Q () id) :
    changes (Made own) (startSession env userId draws) Q pending := by
  unfold startSession
  rw [changes_bind]
  refine changes_createSessionRow fun row => ?_
  simp only [changes_bind, changes_ask, changes_take, changes_put, changes_commitAs]
  exact fun _ => ⟨fun t => ((hmade t).step (hown (.addSession row) trivial)).step (hsigned _ _), hQ⟩

theorem changes_insertUser {row : User} (hQ : Q () ((Write.addUser row).apply ∘ pending)) :
    changes (Made own) (insertUser row) Q pending := by
  unfold insertUser
  simp only [changes_bind, changes_ask, changes_take, changes_check, changes_put]
  exact fun _ _ _ _ => hQ

theorem changes_insertResetRequest {row : PasswordResetRequest}
    (hQ : Q () ((Write.addResetRequest row).apply ∘ pending)) :
    changes (Made own) (insertResetRequest row) Q pending := by
  unfold insertResetRequest
  simp only [changes_bind, changes_ask, changes_take, changes_check, changes_put]
  exact fun _ _ => hQ

theorem changes_checkStrength {password : String} (hQ : Q () pending) :
    changes (Made own) (checkStrength env password) Q pending := by
  unfold checkStrength
  cases env.validatePasswordStrength password with
  | none => exact hQ
  | some message => trivial

theorem changes_acceptLogin {user : User}
    {rehash : Option String} : changes (Made (Write.OfSuccess payload))
      (acceptLogin env payload draws user rehash) (fun _ _ => True) id := by
  have hrest : ∀ pending : State → State, (∀ t, Made (Write.OfSuccess payload) t (pending t)) →
      ∀ t, Made (Write.OfSuccess payload) t ((rehash.map fun hash =>
        (pending t).setPassword user hash (.rehashed user.passwordHash payload.password)).getD
          (pending t)) := by
    intro pending h t
    cases rehash with
    | none => exact h t
    | some hash => exact (h t).step (x := .setPassword user hash _) rfl
  have hend : changes (Made (Write.OfSuccess payload)) (startSession env user.id draws)
      (fun _ _ => True) id :=
    changes_startSession (fun x hx => by cases x <;> first | exact hx | trivial)
      (fun _ _ => trivial) (fun _ => .refl) trivial
  unfold acceptLogin
  rw [changes_bind]
  refine changes_clearLoginFailures ?_ fun ids => ?_
  · rw [changes_bind]
    exact changes_revokeAllUserSessions (hrest id fun t => .refl) (fun _ => trivial) hend
  · rw [changes_bind]
    exact changes_revokeAllUserSessions
      (hrest _ fun t => Made.refl.step (x := .deleteFailures ids) trivial) (fun _ => trivial) hend

theorem changes_resetPassword {payload : PasswordResetIn} :
    changes (Made (Write.OfReset payload)) (resetPassword env payload draws) (fun _ _ => True)
      id := by
  unfold resetPassword lockResetRequest
  simp only [changes_bind, changes_ask, changes_orRaise, changes_take, changes_check]
  intro _ candidate _ _ row _ _ expiresAt _ _ _ _ user _
  refine changes_checkStrength ?_
  intro t
  refine changes_revokeAllUserSessions (fun t => ?_) (fun _ => trivial) ?_
  · exact (Made.refl.step (x := .used row.id _) trivial).step
      (x := .setPassword user _ (.reset row.id payload.newPassword)) ⟨row.id, rfl⟩
  · refine changes_clearLoginFailures ⟨fun _ => .refl, trivial⟩ fun ids => ⟨fun t => ?_, trivial⟩
    exact Made.refl.step (x := .deleteFailures ids) trivial

theorem changes_signup {payload : SignupIn} :
    changes (Made Write.OfSignup) (signup env payload draws) (fun _ _ => True) id := by
  unfold signup
  rw [changes_bind]
  refine changes_checkStrength ?_
  rw [changes_bind, changes_ask]
  intro t
  split
  · unfold reapExpiredPendingSignup
    simp only [changes_bind, changes_ask, changes_takeAll, changes_put]
    intro _ _ _
    split
    · simp only [changes_bind, changes_ask, changes_put, changes_commitAs]
      exact fun _ => ⟨fun t => (Made.refl.step (x := .deletePending _) trivial).step
        (x := .addPending _) trivial, trivial⟩
    · exact ⟨fun t => Made.refl.step (x := .deletePending _) trivial, trivial⟩
  · simp only [changes_bind, changes_check]
    intro _
    refine changes_insertUser (changes_startSession
      (fun x hx => by cases x <;> first | exact hx | trivial) (fun _ _ => trivial)
      (fun t => Made.refl.step (x := .addUser _) trivial) trivial)

theorem changes_verify {payload : VerifyIn} :
    changes (Made Write.OfSignup) (verify env payload draws) (fun _ _ => True) id := by
  unfold verify
  simp only [changes_bind, changes_ask, changes_orRaise, changes_check, changes_take, changes_put]
  intro _ pending _ _ _ _ _ _ verifiedAt _ _
  refine changes_insertUser (changes_revokeAllUserSessions (fun t => ?_) (fun _ => trivial) ?_)
  · exact (Made.refl.step (x := .verified pending.id _) trivial).step (x := .addUser _) trivial
  · exact changes_startSession (fun x hx => by cases x <;> first | exact hx | trivial)
      (fun _ _ => trivial) (fun _ => .refl) trivial

theorem changes_checkLoginLockout {Q : Bool → (State → State) → Prop}
    (hQ : ∀ locked, Q locked pending) :
    changes (Made own) (checkLoginLockout env email) Q pending := by
  unfold checkLoginLockout
  simp only [changes_bind, changes_ask, changes_pure]
  exact fun _ _ _ => hQ _

theorem changes_rejectLogin
    (hown : ∀ row, row.emailHash = env.hashEmail payload.email → own (.addFailure row)) :
    changes (Made own) (rejectLogin env payload draws) (fun _ _ => True) id := by
  unfold rejectLogin recordLoginFailure
  simp only [changes_bind, changes_ask, changes_put, changes_commitAs, changes_fail]
  exact fun _ _ => ⟨fun t => Made.refl.step (x := .addFailure _) (hown _ rfl), trivial⟩

theorem changes_login :
    changes (Made ((Request.login payload draws).MayWrite env)) (login env payload draws)
      (fun _ _ => True) id := by
  unfold login
  rw [changes_bind]
  refine changes_checkLoginLockout fun locked => ?_
  simp only [changes_bind, changes_check, changes_ask]
  intro _ t
  cases passwordCheck env payload draws.salt ((id t).userByEmail? payload.email) with
  | none => exact changes_rejectLogin fun _ hrow => hrow
  | some accepted =>
    refine changes_mono (fun _ _ => Made.mono fun x hx => ?_) changes_acceptLogin
    cases x <;> first | exact hx | exact False.elim hx

theorem changes_requestPasswordReset :
    changes (Made ((Request.requestPasswordReset email draws).MayWrite env))
      (requestPasswordReset env email draws) (fun _ _ => True) id := by
  have hend : ∀ found : Option User, ∀ now (comment : Option String),
      changes (Made ((Request.requestPasswordReset email draws).MayWrite env))
        (requestPasswordResetRow env (env.hashEmail (env.lower (strip email))) draws found now
          comment) (fun _ _ => True) id := by
    intro found now comment
    unfold requestPasswordResetRow
    cases found with
    | none => exact ⟨fun _ => .refl, trivial⟩
    | some user =>
      simp only [changes_bind, changes_ask]
      intro _
      split
      · rw [changes_bind]
        refine changes_insertResetRequest ?_
        exact ⟨fun t => Made.refl.step (x := .addResetRequest _) rfl, trivial⟩
      · rw [changes_bind]
        refine changes_insertResetRequest ?_
        exact ⟨fun t => Made.refl.step (x := .addResetRequest _) rfl, trivial⟩
  unfold requestPasswordReset passwordResetRequestThrottleComment
  simp only [changes_bind, changes_ask, changes_tryTake]
  intro t u granted
  split
  · simp only [changes_bind, changes_ask, changes_pure]
    exact fun _ _ => hend _ _ _
  · exact hend _ _ _

/-- Every commit of a request makes only the writes that are its own. -/
theorem Request.changes_prog (r : Request) :
    changes (Made (r.MayWrite env)) (r.prog env) (fun _ _ => True) id := by
  cases r with
  | login payload draws => exact changes_login
  | logout token =>
    simp only [Request.prog, revokeSession, changes_bind, changes_ask]
    intro t
    split
    · exact ⟨fun t => Made.refl.step (x := .deleteSessions _) trivial, trivial⟩
    · trivial
  | requestPasswordReset email draws => exact changes_requestPasswordReset
  | resetPassword payload draws => exact changes_resetPassword
  | signup payload draws => exact changes_signup
  | verify payload draws => exact changes_verify
  | purgeExpiredSessions =>
    simp only [Request.prog, Auth.purgeExpiredSessions, changes_bind, changes_ask, changes_takeAll,
      changes_put, changes_commitAs]
    exact fun _ _ => ⟨fun t => Made.refl.step (x := .deleteSessions _) trivial, trivial⟩
  | purgePasswordResetRequests =>
    simp only [Request.prog, Auth.purgePasswordResetRequests, changes_bind, changes_ask,
      changes_takeAll, changes_put, changes_commitAs]
    exact fun _ _ => ⟨fun t => Made.refl.step (x := .deleteResetRequests _) ⟨_, rfl⟩, trivial⟩

/-! ### A sample run

A sign-up, a sign-in with a wrong password, a request for a reset link, and the reset. -/

section Sample

def sampleEnv : Env where
  passwordPepper := ""
  extraWeakPasswords := []
  sessionLifetimeDays := 30
  sessionIdleHours := 24
  signupRequireEmailVerification := false
  lower text := text
  sqlLower text := text
  sha256 text := text
  hmacSha256 key text := key ++ ":" ++ text
  sessionSecret := "secret"
  argonHash _ text := text
  argonVerify hash text := hash = text
  checkNeedsRehash _ := false
  hashtext _ := 0
  breaches _ := none
  dummyArgon2 := ""

def sampleDraws (id : Uuid) : Draws := ⟨id, "link", toString id, "salt", 0, true, none⟩

def sampleRequests : Bool × Bool → Request
  | (false, false) => .signup ⟨"a@b.c", "first choice"⟩ (sampleDraws 1)
  | (false, true) => .login ⟨"a@b.c", "wrong"⟩ (sampleDraws 2)
  | (true, false) => .requestPasswordReset "a@b.c" (sampleDraws 3)
  | (true, true) => .resetPassword ⟨"link", "second choice"⟩ (sampleDraws 4)

def sampleState : State := ⟨1000000000000, [], [], [], [], [], []⟩

def sampleStart : World (Bool × Bool) State Lock Mark Refusal :=
  start sampleState fun i => (sampleRequests i).prog sampleEnv

/-- The link is asked for while the password is being checked. -/
def sampleActs : List (Act (Bool × Bool) ℕ) :=
  List.replicate 16 (.advance (false, false)) ++ List.replicate 3 (.advance (false, true)) ++
    List.replicate 11 (.advance (true, false)) ++ [.env 60000000] ++
    List.replicate 6 (.advance (false, true))

def sampleReset : List (Act (Bool × Bool) ℕ) :=
  sampleActs ++ List.replicate 18 (.advance (true, true))

end Sample

end StockManager.Auth
