import StockManager.Library.Sessions
import StockManager.Model.Budget
import StockManager.Model.DbSessions

/-! # Signing up, signing in and resetting passwords (core/auth.py, api/routes/auth.py)

Each request runs statement by statement against what the others have committed. The session
does not flush before it reads; `revoke_all_user_sessions` commits in the middle of a request. -/

namespace StockManager.Auth

open Sessions

/-! ### Rows (domain/users/models.py) -/

structure User where
  id : Uuid
  email : String
  passwordHash : String
  lastLoginAt : Option Timestamp
  deriving DecidableEq

structure UserSession where
  tokenHash : String
  userId : Uuid
  lastUsedAt : Timestamp
  expiresAt : Timestamp
  deriving DecidableEq

structure UserLoginFailure where
  id : Uuid
  userId : Option Uuid
  emailHash : String
  occurredAt : Timestamp
  clientIp : Option String
  deriving DecidableEq

structure PasswordResetRequest where
  id : Uuid
  userId : Option Uuid
  emailHash : String
  tokenHmac : Option String
  createdAt : Timestamp
  expiresAt : Option Timestamp
  usedAt : Option Timestamp
  ip : Option String
  sentAt : Option Timestamp
  deriving DecidableEq

structure PendingUser where
  id : Uuid
  email : String
  passwordHash : String
  createdAt : Timestamp
  verificationTokenHmac : String
  verifiedAt : Option Timestamp
  ip : Option String
  deriving DecidableEq

/-- What a stored hash was made of -/
inductive Origin
  | signedUp
  | rehashed (accepted password : String)
  | reset (requestId : Uuid) (password : String)
  deriving DecidableEq

/-- A value that was written to `users.password_hash`. No table holds these. -/
structure PasswordWrite where
  userId : Uuid
  passwordHash : String
  origin : Origin
  deriving DecidableEq

structure State where
  now : Timestamp
  users : List User
  sessions : List UserSession
  failures : List UserLoginFailure
  resetRequests : List PasswordResetRequest
  pending : List PendingUser
  writes : List PasswordWrite

/-- Settings, and what the code outside these modules does: `str.lower` and the database's
`lower`, the digests, argon2, whose exceptions are a false `verify`, `hashtext`, and the breach
list's answer for a password. -/
structure Env where
  passwordPepper : String
  extraWeakPasswords : List String
  sessionLifetimeDays : ℕ
  sessionIdleHours : ℕ
  signupRequireEmailVerification : Bool
  lower : String → String
  sqlLower : String → String
  sha256 : String → String
  hmacSha256 : String → String → String
  sessionSecret : String
  argonHash : String → String → String
  argonVerify : String → String → Bool
  checkNeedsRehash : String → Bool
  hashtext : String → ℤ
  breaches : String → Option ℕ
  dummyArgon2 : String

inductive Refusal
  | http (status : ℕ) (code message : String) (fields : List (String × String))
  | integrity (constraintName : String)
  | staleData
  deriving DecidableEq

inductive Lock
  | user (id : Uuid)
  | userEmail (email : String)
  | session (tokenHash : String)
  | failure (id : Uuid)
  | resetRequest (id : Uuid)
  | pending (id : Uuid)
  | resetThrottle (key : ℤ)
  deriving DecidableEq

/-- A commit, and the reset request that it adds, if any -/
inductive Mark
  | plain
  | requested (id : Uuid)
  deriving DecidableEq

abbrev AuthProg (α : Type) : Type := Prog State Lock Mark Refusal α

def microsPerMinute : ℕ := 60000000

def microsPerHour : ℕ := 3600000000

def microsPerDay : ℕ := 86400000000

def lockoutMaxFailures : ℕ := 10

def lockoutWindowMinutes : ℕ := 15

def lockoutWindowSeconds : ℕ := 15 * 60

def verifyTtlHours : ℕ := 24

def passwordResetTtlHours : ℕ := 1

def passwordResetEmailLimit : ℕ := 3

def throttledConcurrent : String := "throttled:concurrent"

def throttledRate : String := "throttled:rate"

/-- What a request draws: keys of new rows, secrets, salts, which of several rows an unordered
query gives first, and whether the mail server takes the mail. -/
structure Draws where
  newId : Uuid
  secret : String
  sessionSecret : String
  salt : String
  first : ℕ
  mailSent : Bool
  clientIp : Option String

/-! ### Passwords (core/auth.py) -/

namespace Env

variable (env : Env)

def passwordMaterial (password : String) : String :=
  if env.passwordPepper = "" then password else env.hmacSha256 env.passwordPepper password

def hashPassword (salt password : String) : String :=
  env.argonHash salt (env.passwordMaterial password)

structure PasswordVerifyResult where
  valid : Bool
  rehash : Option String

def verifyPasswordWithRehash (salt hash password : String) : PasswordVerifyResult :=
  let material := env.passwordMaterial password
  if env.argonVerify hash material then
    ⟨true, if env.checkNeedsRehash hash then some (env.argonHash salt material) else none⟩
  else if material = password then ⟨false, none⟩
  else if env.argonVerify hash password then ⟨true, some (env.hashPassword salt password)⟩
  else ⟨false, none⟩

def weakPasswords : List String :=
  ["12345678", "123456789", "1234567890", "password", "password1", "password12", "password123",
    "qwerty12", "qwerty123", "qwertyuiop", "letmein", "letmein123", "iloveyou", "monkey123",
    "welcome1", "welcome123", "admin1234", "admin12345", "administrator", "1q2w3e4r", "1qaz2wsx",
    "zaq12wsx", "11111111", "00000000", "abcdefgh", "abc12345", "stockmgr", "stockmanager"] ++
    env.extraWeakPasswords.map env.lower

/-- `f"{count:,}"` -/
def thousands (count : ℕ) : String :=
  if count < 1000 then toString count
  else thousands (count / 1000) ++ "," ++
    String.ofList ((toString (1000 + count % 1000)).toList.drop 1)
termination_by count
decreasing_by omega

/-- `_hibp_check`: the message of its `WeakPasswordError`. -/
def hibpCheck (password : String) : Option String :=
  (env.breaches password).bind fun count =>
    if 0 < count then some ("password has appeared in " ++ thousands count ++
      " known data breaches — choose a unique password") else none

/-- `validate_password_strength`: the message of its `WeakPasswordError`. -/
def validatePasswordStrength (password : String) : Option String :=
  if password.length < 8 then some "password must be at least 8 characters"
  else if env.lower password ∈ env.weakPasswords then
    some "password is on the public breach list — pick something else"
  else if password.toList.dedup.length < 4 then
    some "password is too repetitive (use a longer / more varied passphrase)"
  else env.hibpCheck password

def hmacToken (token : String) : String := env.hmacSha256 env.sessionSecret token

def hashSessionToken (token : String) : String := env.sha256 token

/-- `_hash_email_for_lockout`, and `_hash_email_for_password_reset` alike -/
def hashEmail (email : String) : String := env.sha256 (env.lower email)

end Env

/-! ### Queries and writes -/

namespace State

variable (s : State)

/-- `db.get(User, …)` -/
def user? (id : Uuid) : Option User := s.users.find? (·.id = id)

/-- `User.email == email`, which is unique -/
def userByEmail? (email : String) : Option User := s.users.find? (·.email = email)

/-- `func.lower(User.email) == email`: any of the rows may come first. -/
def userByLower? (env : Env) (draws : Draws) (email : String) : Option User :=
  let found := s.users.filter fun u => env.sqlLower u.email = email
  found[draws.first % found.length]?

def sessionsOf (userId : Uuid) : List UserSession := s.sessions.filter (·.userId = userId)

def failuresOf (userId : Uuid) : List UserLoginFailure :=
  s.failures.filter (·.userId = some userId)

/-- The count of `check_login_lockout` -/
def recentFailures (userId : Option Uuid) (emailHash : String) (cutoff : Timestamp) : ℕ :=
  s.failures.countP fun f => cutoff ≤ f.occurredAt ∧
    ((userId ≠ none ∧ f.userId = userId) ∨ f.emailHash = emailHash)

/-- The count of `_password_reset_request_throttle_comment` -/
def recentResetRequests (emailHash : String) (cutoff : Timestamp) : ℕ :=
  s.resetRequests.countP fun r => r.emailHash = emailHash ∧ cutoff ≤ r.createdAt

def addUser (row : User) : State :=
  { s with users := s.users ++ [row], writes := ⟨row.id, row.passwordHash, .signedUp⟩ :: s.writes }

def addSession (row : UserSession) : State := { s with sessions := s.sessions ++ [row] }

def addFailure (row : UserLoginFailure) : State := { s with failures := s.failures ++ [row] }

def addResetRequest (row : PasswordResetRequest) : State :=
  { s with resetRequests := s.resetRequests ++ [row] }

def addPending (row : PendingUser) : State := { s with pending := s.pending ++ [row] }

def deleteSessions (hashes : List String) : State :=
  { s with sessions := s.sessions.filter (·.tokenHash ∉ hashes) }

def deleteFailures (ids : List Uuid) : State :=
  { s with failures := s.failures.filter (·.id ∉ ids) }

def deletePending (ids : List Uuid) : State :=
  { s with pending := s.pending.filter (·.id ∉ ids) }

def deleteResetRequests (ids : List Uuid) : State :=
  { s with resetRequests := s.resetRequests.filter (·.id ∉ ids) }

def updateUser (id : Uuid) (f : User → User) : State :=
  { s with users := s.users.map fun u => if u.id = id then f u else u }

def updateResetRequest (id : Uuid) (f : PasswordResetRequest → PasswordResetRequest) : State :=
  { s with resetRequests := s.resetRequests.map fun r => if r.id = id then f r else r }

def updatePending (id : Uuid) (f : PendingUser → PendingUser) : State :=
  { s with pending := s.pending.map fun p => if p.id = id then f p else p }

/-- `user.password_hash = …`, written where it is not the value the session has loaded. -/
def setPassword (loaded : User) (passwordHash : String) (origin : Origin) : State :=
  if passwordHash = loaded.passwordHash then s
  else { s.updateUser loaded.id fun u => { u with passwordHash := passwordHash } with
    writes := ⟨loaded.id, passwordHash, origin⟩ :: s.writes }

end State

section Programs

variable (env : Env)

/-! ### Sessions and failures (core/auth.py) -/

def createSessionRow (userId : Uuid) (draws : Draws) : AuthProg Unit := do
  let expiresAt ← Prog.ask fun s => s.now + env.sessionLifetimeDays * microsPerDay
  let lastUsedAt ← Prog.ask (·.now)
  let tokenHash := env.hashSessionToken draws.sessionSecret
  Prog.take (.session tokenHash)
  let taken ← Prog.ask fun s => s.sessions.any (·.tokenHash = tokenHash)
  Prog.check (taken = false) (.integrity "user_sessions_pkey")
  Prog.put fun s => s.addSession ⟨tokenHash, userId, lastUsedAt, expiresAt⟩

def revokeSession (token : String) : AuthProg Unit := do
  let tokenHash := env.hashSessionToken token
  let row ← Prog.ask fun s => s.sessions.find? (·.tokenHash = tokenHash)
  if row.isSome then
    Prog.take (.session tokenHash)
    Prog.put fun s => s.deleteSessions [tokenHash]
    Prog.commitAs .plain
  else pure ()

/-- `revoke_all_user_sessions`; its commit writes whatever the request has changed before. -/
def revokeAllUserSessions (userId : Uuid) (changed : State → State) (rows : List Lock) :
    AuthProg Unit := do
  let hashes ← Prog.ask fun s => (s.sessionsOf userId).map (·.tokenHash)
  Prog.takeAll rows
  Prog.put changed
  Prog.takeAll (hashes.map .session)
  Prog.put fun s => s.deleteSessions hashes
  Prog.commitAs .plain

/-- `record_login_failure`, and the commit that writes the row -/
def recordLoginFailure (email : String) (draws : Draws) : AuthProg Unit := do
  let user ← Prog.ask fun s => s.userByEmail? email
  let occurredAt ← Prog.ask (·.now)
  Prog.put fun s => s.addFailure
    ⟨draws.newId, user.map (·.id), env.hashEmail email, occurredAt, draws.clientIp⟩
  Prog.commitAs .plain

def checkLoginLockout (email : String) : AuthProg Bool := do
  let cutoff ← Prog.ask fun s => s.now - lockoutWindowMinutes * microsPerMinute
  let user ← Prog.ask fun s => s.userByEmail? email
  let count ← Prog.ask fun s => s.recentFailures (user.map (·.id)) (env.hashEmail email) cutoff
  pure (lockoutMaxFailures ≤ count)

def clearLoginFailures (email : String) : AuthProg Unit := do
  let user ← Prog.ask fun s => s.userByEmail? email
  match user with
  | none => pure ()
  | some user =>
    let ids ← Prog.ask fun s => (s.failuresOf user.id).map (·.id)
    Prog.takeAll (ids.map .failure)
    Prog.put fun s => s.deleteFailures ids

def purgeExpiredSessions : AuthProg Unit := do
  let cutoff ← Prog.ask (·.now)
  let idleCutoff := cutoff - env.sessionIdleHours * microsPerHour
  let hashes ← Prog.ask fun s => (s.sessions.filter fun row =>
    row.expiresAt < cutoff ∨ row.lastUsedAt < idleCutoff).map (·.tokenHash)
  Prog.takeAll (hashes.map .session)
  Prog.put fun s => s.deleteSessions hashes
  Prog.commitAs .plain

def purgePasswordResetRequests : AuthProg Unit := do
  let cutoff ← Prog.ask fun s => s.now - 30 * microsPerDay
  let ids ← Prog.ask fun s => (s.resetRequests.filter (·.createdAt < cutoff)).map (·.id)
  Prog.takeAll (ids.map .resetRequest)
  Prog.put fun s => s.deleteResetRequests ids
  Prog.commitAs .plain

/-! ### Signing in (api/routes/auth.py) -/

structure LoginIn where
  email : String
  password : String

/-- How `login`, `signup` and `verify` end -/
def startSession (userId : Uuid) (draws : Draws) : AuthProg Unit := do
  createSessionRow env userId draws
  let lastLoginAt ← Prog.ask (·.now)
  Prog.take (.user userId)
  Prog.put fun s => s.updateUser userId fun u => { u with lastLoginAt := some lastLoginAt }
  Prog.commitAs .plain

/-- `login` from a wrong password on -/
def rejectLogin (payload : LoginIn) (draws : Draws) : AuthProg Unit := do
  recordLoginFailure env payload.email draws
  Prog.fail (.http 401 "auth.invalid_credentials" "invalid credentials" [])

/-- `login` from the right password of `user` on -/
def acceptLogin (payload : LoginIn) (draws : Draws) (user : User) (rehash : Option String) :
    AuthProg Unit := do
  clearLoginFailures payload.email
  revokeAllUserSessions user.id
    (fun s => (rehash.map fun hash => s.setPassword user hash
      (.rehashed user.passwordHash payload.password)).getD s)
    (if rehash.isSome then [.user user.id] else [])
  startSession env user.id draws

/-- The user whose password it is, if any, with the new hash to store; an address that no user
has is checked against `_DUMMY_ARGON2`. -/
def passwordCheck (payload : LoginIn) (salt : String) (found : Option User) :
    Option (User × Option String) :=
  let passwordHash := (found.map (·.passwordHash)).getD env.dummyArgon2
  let result := env.verifyPasswordWithRehash salt passwordHash payload.password
  found.bind fun user => if result.valid then some (user, result.rehash) else none

def login (payload : LoginIn) (draws : Draws) : AuthProg Unit := do
  let locked ← checkLoginLockout env payload.email
  Prog.check (locked = false) (.http 429 "auth.account_locked"
    "too many failed login attempts — try again later"
    [("retry_after_seconds", toString lockoutWindowSeconds)])
  let found ← Prog.ask fun s => s.userByEmail? payload.email
  match passwordCheck env payload draws.salt found with
  | none => rejectLogin env payload draws
  | some (user, rehash) => acceptLogin env payload draws user rehash

/-! ### Resetting a password -/

def passwordResetRequestThrottleComment (emailHash : String) : AuthProg (Option String) := do
  let granted ← Prog.tryTake (.resetThrottle (env.hashtext ("reset:" ++ emailHash)))
  if granted then
    let cutoff ← Prog.ask fun s => s.now - microsPerHour
    let count ← Prog.ask fun s => s.recentResetRequests emailHash cutoff
    pure (if passwordResetEmailLimit ≤ count then some throttledRate else none)
  else pure (some throttledConcurrent)

/-- The `INSERT` of a reset request -/
def insertResetRequest (row : PasswordResetRequest) : AuthProg Unit := do
  Prog.take (.resetRequest row.id)
  let taken ← Prog.ask fun s => s.resetRequests.any (·.id = row.id)
  Prog.check (taken = false) (.integrity "password_reset_requests_pkey")
  Prog.put fun s => s.addResetRequest row

/-- The row `request_password_reset` adds, where it has found a user, and its commit -/
def requestPasswordResetRow (emailHash : String) (draws : Draws) (found : Option User)
    (now : Timestamp) (throttleComment : Option String) : AuthProg Unit :=
  match found with
  | none => Prog.commitAs .plain
  | some user => do
    let createdAt ← Prog.ask (·.now)
    if throttleComment = none then
      insertResetRequest
        ⟨draws.newId, some user.id, emailHash, some (env.hmacToken draws.secret), createdAt,
          some (now + passwordResetTtlHours * microsPerHour), none, draws.clientIp,
          if draws.mailSent then some now else none⟩
    else
      insertResetRequest
        ⟨draws.newId, some user.id, emailHash, none, createdAt, none, none, draws.clientIp, none⟩
    Prog.commitAs (.requested draws.newId)

def requestPasswordReset (email : String) (draws : Draws) : AuthProg Unit := do
  let emailNormalized := env.lower (strip email)
  let emailHash := env.hashEmail emailNormalized
  let now ← Prog.ask (·.now)
  let found ← Prog.ask fun s => s.userByLower? env draws emailNormalized
  let throttleComment ← passwordResetRequestThrottleComment env emailHash
  requestPasswordResetRow env emailHash draws found now throttleComment

structure PasswordResetIn where
  token : String
  newPassword : String

def resetInvalid : Refusal :=
  .http 400 "auth.reset_invalid" "invalid password reset link" []

def resetExpired : Refusal :=
  .http 400 "auth.reset_expired" "password reset link expired" []

/-- The `SELECT … FOR UPDATE` of `reset_password`: a row that no longer matches once the lock is
granted is none. -/
def lockResetRequest (tokenHmac : String) : AuthProg PasswordResetRequest := do
  let found ← Prog.ask fun s => s.resetRequests.find? (·.tokenHmac = some tokenHmac)
  let candidate ← Prog.orRaise found resetInvalid
  Prog.take (.resetRequest candidate.id)
  let row ← Prog.ask fun s => s.resetRequests.find? fun r =>
    r.id = candidate.id ∧ r.tokenHmac = some tokenHmac
  Prog.orRaise row resetInvalid

def checkStrength (password : String) : AuthProg Unit :=
  match env.validatePasswordStrength password with
  | none => pure ()
  | some message => Prog.fail (.http 400 "auth.weak_password" message [])

def resetPassword (payload : PasswordResetIn) (draws : Draws) : AuthProg Unit := do
  let resetRequest ← lockResetRequest (env.hmacToken payload.token)
  Prog.check (resetRequest.usedAt = none)
    (.http 400 "auth.reset_used" "password reset link already used" [])
  let expiresAt ← Prog.orRaise resetRequest.expiresAt resetExpired
  let now ← Prog.ask (·.now)
  Prog.check (now ≤ expiresAt) resetExpired
  let found ← Prog.ask fun s => resetRequest.userId.bind s.user?
  let user ← Prog.orRaise found resetInvalid
  checkStrength env payload.newPassword
  let usedAt ← Prog.ask (·.now)
  let passwordHash := env.hashPassword draws.salt payload.newPassword
  revokeAllUserSessions user.id
    (fun s => (s.updateResetRequest resetRequest.id fun r =>
      { r with usedAt := some usedAt }).setPassword user passwordHash
        (.reset resetRequest.id payload.newPassword))
    [.user user.id]
  clearLoginFailures user.email
  Prog.commitAs .plain

/-! ### Signing up -/

structure SignupIn where
  email : String
  password : String

/-- The `INSERT` of a user -/
def insertUser (row : User) : AuthProg Unit := do
  Prog.take (.user row.id)
  Prog.take (.userEmail row.email)
  let idTaken ← Prog.ask fun s => s.users.any (·.id = row.id)
  Prog.check (idTaken = false) (.integrity "users_pkey")
  let emailTaken ← Prog.ask fun s => s.users.any (·.email = row.email)
  Prog.check (emailTaken = false) (.integrity "ix_users_email")
  Prog.put fun s => s.addUser row

def reapExpiredPendingSignup (email : String) : AuthProg Unit := do
  let cutoff ← Prog.ask fun s => s.now - verifyTtlHours * microsPerHour
  let ids ← Prog.ask fun s => (s.pending.filter fun p =>
    p.email = email ∧ p.createdAt < cutoff ∧ p.verifiedAt = none).map (·.id)
  Prog.takeAll (ids.map .pending)
  Prog.put fun s => s.deletePending ids

def emailTaken : Refusal := .http 409 "auth.email_taken" "email already registered" []

def signup (payload : SignupIn) (draws : Draws) : AuthProg Unit := do
  checkStrength env payload.password
  let existing ← Prog.ask fun s => s.userByEmail? payload.email
  if env.signupRequireEmailVerification then
    reapExpiredPendingSignup payload.email
    let existingPending ← Prog.ask fun s => s.pending.find? fun p =>
      p.email = payload.email ∧ p.verifiedAt = none
    if existing = none ∧ existingPending = none then
      let createdAt ← Prog.ask (·.now)
      Prog.put fun s => s.addPending
        ⟨draws.newId, payload.email, env.hashPassword draws.salt payload.password, createdAt,
          env.hmacToken draws.secret, none, draws.clientIp⟩
    else pure ()
    Prog.commitAs .plain
  else
    Prog.check (existing = none) emailTaken
    insertUser ⟨draws.newId, payload.email, env.hashPassword draws.salt payload.password, none⟩
    startSession env draws.newId draws

/-- A pending id that reads as a UUID, and the token -/
structure VerifyIn where
  id : Uuid
  token : String

def verificationInvalid (message : String) : Refusal :=
  .http 400 "auth.verification_invalid" message []

def verify (payload : VerifyIn) (draws : Draws) : AuthProg Unit := do
  let row ← Prog.ask fun s => s.pending.find? (·.id = payload.id)
  let found := row.filter fun p => env.hmacToken payload.token = p.verificationTokenHmac
  let pending ← Prog.orRaise found (verificationInvalid "invalid or expired verification link")
  Prog.check (pending.verifiedAt = none) (verificationInvalid "verification link already used")
  let cutoff ← Prog.ask fun s => s.now - verifyTtlHours * microsPerHour
  Prog.check (cutoff ≤ pending.createdAt) (.http 400 "auth.verification_expired"
    "verification link expired — please sign up again" [])
  let existing ← Prog.ask fun s => s.userByEmail? pending.email
  Prog.check (existing = none) emailTaken
  let verifiedAt ← Prog.ask (·.now)
  Prog.take (.pending pending.id)
  let stored ← Prog.ask fun s => s.pending.any (·.id = pending.id)
  Prog.check (stored = true) .staleData
  Prog.put fun s => s.updatePending pending.id fun p => { p with verifiedAt := some verifiedAt }
  insertUser ⟨draws.newId, pending.email, pending.passwordHash, none⟩
  revokeAllUserSessions draws.newId (fun s => s) []
  startSession env draws.newId draws

/-! ### Requests under way -/

inductive Request
  | login (payload : LoginIn) (draws : Draws)
  | logout (token : String)
  | requestPasswordReset (email : String) (draws : Draws)
  | resetPassword (payload : PasswordResetIn) (draws : Draws)
  | signup (payload : SignupIn) (draws : Draws)
  | verify (payload : VerifyIn) (draws : Draws)
  | purgeExpiredSessions
  | purgePasswordResetRequests

def Request.prog : Request → AuthProg Unit
  | .login payload draws => Auth.login env payload draws
  | .logout token => revokeSession env token
  | .requestPasswordReset email draws => Auth.requestPasswordReset env email draws
  | .resetPassword payload draws => Auth.resetPassword env payload draws
  | .signup payload draws => Auth.signup env payload draws
  | .verify payload draws => Auth.verify env payload draws
  | .purgeExpiredSessions => Auth.purgeExpiredSessions env
  | .purgePasswordResetRequests => Auth.purgePasswordResetRequests

/-- The clock goes on by so many microseconds. -/
def clock (micros : ℕ) (s : State) : State := { s with now := s.now + micros }

def step {ι : Type} [DecidableEq ι] [Fintype ι] :
    Act ι ℕ → World ι State Lock Mark Refusal → Option (World ι State Lock Mark Refusal) :=
  World.step clock

end Programs

end StockManager.Auth
