import StockManager.Library.Sessions
import StockManager.Model.DbSessions

/-! # Members, invitations and tokens (domain/workspaces/models.py, domain/tokens)

The rows, what the routes look up and what they write. An object the session has
loaded keeps the values it was loaded with, whatever a later query finds. -/

namespace StockManager.Tenancy

open Sessions

structure User where
  id : Uuid
  email : String
  deriving DecidableEq

inductive WorkspaceKind
  | personal | organization
  deriving DecidableEq

structure Workspace where
  id : Uuid
  name : String
  kind : WorkspaceKind
  ownerUserId : Uuid
  currencyDefault : String
  deriving DecidableEq

inductive MemberStatus
  | invited | active | disabled
  deriving DecidableEq

/-- `WorkspaceMember` -/
structure Member where
  id : Uuid
  workspaceId : Uuid
  userId : Uuid
  role : Role
  status : MemberStatus
  deriving DecidableEq

inductive InvitationStatus
  | pending | accepted | revoked
  deriving DecidableEq

def InvitationStatus.str : InvitationStatus → String
  | pending => "pending"
  | accepted => "accepted"
  | revoked => "revoked"

/-- `WorkspaceInvitation` -/
structure Invitation where
  id : Uuid
  workspaceId : Uuid
  email : String
  role : Role
  tokenHmac : Option String
  status : InvitationStatus
  invitedBy : Option Uuid
  expiresAt : Timestamp
  acceptedAt : Option Timestamp
  acceptedBy : Option Uuid
  deriving DecidableEq

/-- `requested` is no column: the number of events before the token's request came in. -/
structure ApiToken where
  id : Uuid
  workspaceId : Uuid
  userId : Uuid
  label : String
  tokenHmac : String
  readOnly : Bool
  expiresAt : Option Timestamp
  revokedAt : Option Timestamp
  archivedAt : Option Timestamp
  requested : ℕ
  deriving DecidableEq

/-- When an invitation was read: the number of events before, and whether it was then
pending and unexpired. -/
structure Reading where
  events : ℕ
  wasOpen : Bool
  deriving DecidableEq

/-- What has happened to seats, tokens and invitations; the history is not stored. A removal
says how many events there were when it read the seat's tokens. -/
inductive Event
  | memberRemoved (workspaceId userId : Uuid) (events : ℕ)
  | tokenMinted (tokenId : Uuid)
  | invitationRevoked (invitationId : Uuid)
  | seatGiven (invitationId userId : Uuid) (read : Reading)
  deriving DecidableEq

structure State where
  users : List User
  workspaces : List Workspace
  members : List Member
  invitations : List Invitation
  tokens : List ApiToken
  now : Timestamp
  history : List Event

/-- What the code outside the routes does: `str.lower` and the database's `lower`,
`_hmac_token`, and the days an invitation lives. -/
structure Env where
  lower : String → String
  sqlLower : String → String
  hmac : String → String
  invitationTtlDays : ℕ

def ownedOrgWorkspaceCap : ℕ := 5

def microsPerDay : ℕ := 86400000000

inductive Refusal
  | http (status : ℕ) (code message : String) (fields : List (String × String))
  | integrity (constraintName : String)
  | staleData
  deriving DecidableEq

/-- A row of a table with its unique keys: a seat is one user's membership of a workspace.
A membership's id is a key of its own while the row is being inserted. -/
inductive Lock
  | workspace (id : Uuid)
  | memberKey (id : Uuid)
  | seat (workspaceId userId : Uuid)
  | invitation (id : Uuid)
  | pendingInvitation (workspaceId : Uuid) (email : String)
  | token (id : Uuid)
  deriving DecidableEq

/-! ### What a request may change -/

inductive PatchStatus
  | active | disabled
  deriving DecidableEq

def PatchStatus.status : PatchStatus → MemberStatus
  | active => .active
  | disabled => .disabled

/-- A field is absent, null or a value. -/
structure MemberPatch where
  role : Option (Option Role)
  status : Option (Option PatchStatus)
  deriving DecidableEq

inductive InviteRole
  | admin | member | viewer
  deriving DecidableEq

def InviteRole.role : InviteRole → Role
  | admin => .admin
  | member => .member
  | viewer => .viewer

structure InviteIn where
  email : String
  role : InviteRole

structure WorkspaceCreateIn where
  name : String
  currencyDefault : String

structure ApiTokenIn where
  label : String
  readOnly : Bool
  expiresInDays : Option ℕ

/-- A commit: what it does and what it rests on. `counted` is the number of active
owners, where the route counted them. -/
inductive Mark
  | created (workspaceId userId : Uuid)
  | patched (loaded : Member) (payload : MemberPatch) (counted : Option ℕ)
  | removed (loaded : Member) (counted : Option ℕ)
  | invited (row : Invitation)
  | withdrawn (loaded : Invitation)
  | accepted (loaded : Invitation) (existing : Option Member)
  | minted (row : ApiToken)
  deriving DecidableEq

abbrev TenancyProg (α : Type) : Type := Prog State Lock Mark Refusal α

/-! ### Queries -/

namespace State

def user? (s : State) (id : Uuid) : Option User := s.users.find? (·.id = id)

def workspace? (s : State) (id : Uuid) : Option Workspace := s.workspaces.find? (·.id = id)

def invitation? (s : State) (id : Uuid) : Option Invitation := s.invitations.find? (·.id = id)

/-- The membership row of the user, whatever its status. -/
def seat? (s : State) (workspaceId userId : Uuid) : Option Member :=
  s.members.find? fun m => m.workspaceId = workspaceId ∧ m.userId = userId

def activeSeat? (s : State) (workspaceId userId : Uuid) : Option Member :=
  s.members.find? fun m => m.workspaceId = workspaceId ∧ m.userId = userId ∧ m.status = .active

def activeSeats (s : State) (userId : Uuid) : List Member :=
  s.members.filter fun m => m.userId = userId ∧ m.status = .active

/-- `assert_in_workspace` for a member -/
def member? (s : State) (workspaceId memberId : Uuid) : Option Member :=
  s.members.find? fun m => m.id = memberId ∧ m.workspaceId = workspaceId

def activeOwners (s : State) (workspaceId : Uuid) : List Member :=
  s.members.filter fun m => m.workspaceId = workspaceId ∧ m.role = .owner ∧ m.status = .active

def activeOwnerCount (s : State) (workspaceId : Uuid) : ℕ := (s.activeOwners workspaceId).length

/-- The count of `create_workspace`: the user's seats in organizations that the user owns. -/
def ownedOrganizationCount (s : State) (userId : Uuid) : ℕ :=
  (s.members.filter fun m => m.userId = userId ∧ ∃ w ∈ s.workspaces,
    w.id = m.workspaceId ∧ w.ownerUserId = userId ∧ w.kind = .organization).length

/-- The membership `create_invitation` looks for: one of a user with this address. -/
def memberWithEmail? (env : Env) (s : State) (workspaceId : Uuid) (email : String) :
    Option Member :=
  s.members.find? fun m => m.workspaceId = workspaceId ∧ ∃ u ∈ s.users,
    u.id = m.userId ∧ env.sqlLower u.email = email

def pendingInvitation? (s : State) (workspaceId : Uuid) (email : String) : Option Invitation :=
  s.invitations.find? fun inv => inv.workspaceId = workspaceId ∧ inv.email = email ∧
    inv.status = .pending

def liveTokens (s : State) (workspaceId userId : Uuid) : List ApiToken :=
  s.tokens.filter fun t => t.workspaceId = workspaceId ∧ t.userId = userId ∧ t.revokedAt = none

/-- The invitation is pending and has not expired. -/
def isOpen (s : State) (invitationId : Uuid) : Bool :=
  s.invitations.any fun inv => inv.id = invitationId ∧ inv.status = .pending ∧
    s.now < inv.expiresAt

def read (s : State) (invitationId : Uuid) : Reading := ⟨s.history.length, s.isOpen invitationId⟩

def record (s : State) (e : Event) : State := { s with history := e :: s.history }

end State

/-- The object of the session's identity map for a row a query found. -/
def identity (loaded : List Member) (row : Member) : Member :=
  (loaded.find? (·.id = row.id)).getD row

/-! ### Writes -/

/-- The session writes an attribute whose value is not the loaded one. -/
def Member.stored (loaded new stored : Member) : Member :=
  { stored with
    role := written loaded.role new.role stored.role
    status := written loaded.status new.status stored.status }

def Invitation.stored (loaded new stored : Invitation) : Invitation :=
  { stored with
    status := written loaded.status new.status stored.status
    acceptedAt := written loaded.acceptedAt new.acceptedAt stored.acceptedAt
    acceptedBy := written loaded.acceptedBy new.acceptedBy stored.acceptedBy }

namespace State

def updateMember (s : State) (loaded new : Member) : State :=
  { s with members := s.members.map fun m => if m.id = loaded.id then loaded.stored new m else m }

def updateInvitation (s : State) (loaded new : Invitation) : State :=
  { s with invitations := s.invitations.map fun inv =>
      if inv.id = loaded.id then loaded.stored new inv else inv }

def deleteMember (s : State) (id : Uuid) : State :=
  { s with members := s.members.filter (·.id ≠ id) }

def revokeTokens (s : State) (ids : List Uuid) (now : Timestamp) : State :=
  { s with tokens := s.tokens.map fun t =>
      if t.id ∈ ids ∧ t.revokedAt = none then { t with revokedAt := some now } else t }

def addWorkspace (s : State) (row : Workspace) : State :=
  { s with workspaces := s.workspaces ++ [row] }

def addMember (s : State) (row : Member) : State := { s with members := s.members ++ [row] }

def addInvitation (s : State) (row : Invitation) : State :=
  { s with invitations := s.invitations ++ [row] }

def addToken (s : State) (row : ApiToken) : State := { s with tokens := s.tokens ++ [row] }

end State

/-- The `UPDATE` of a membership, where an attribute has changed. -/
def flushMember (loaded new : Member) : TenancyProg Unit :=
  if new = loaded then pure ()
  else do
    Prog.take (.seat loaded.workspaceId loaded.userId)
    let found ← Prog.ask fun s => s.members.any (·.id = loaded.id)
    Prog.check (found = true) .staleData
    Prog.put fun s => s.updateMember loaded new

/-- The `UPDATE` of an invitation. -/
def flushInvitation (loaded new : Invitation) : TenancyProg Unit := do
  Prog.take (.invitation loaded.id)
  Prog.take (.pendingInvitation loaded.workspaceId loaded.email)
  let found ← Prog.ask fun s => s.invitations.any (·.id = loaded.id)
  Prog.check (found = true) .staleData
  Prog.put fun s => s.updateInvitation loaded new

/-- The `INSERT` of a membership; false where a unique key is taken. -/
def insertMember (row : Member) : TenancyProg Bool := do
  Prog.take (.memberKey row.id)
  Prog.take (.seat row.workspaceId row.userId)
  let taken ← Prog.ask fun s => s.members.any fun m =>
    m.id = row.id ∨ (m.workspaceId = row.workspaceId ∧ m.userId = row.userId)
  if taken then pure false
  else do
    Prog.put fun s => s.addMember row
    pure true

end StockManager.Tenancy

/-! ## Routes of workspaces, invitations and tokens (api/routes)

Each route runs in one READ COMMITTED transaction that `get_db` commits. -/

namespace StockManager.Tenancy

open Sessions

/-! ### Dependencies (core/deps.py) -/

/-- `get_current_user` with a session cookie of the user -/
def getCurrentUser (userId : Uuid) : TenancyProg User := do
  let user ← Prog.ask fun s => s.user? userId
  Prog.orRaise user (.http 401 "auth.user_missing" "user missing" [])

/-- `get_current_workspace`: the workspace, and the memberships it loads. `wanted` is the
header or cookie, where it reads as a UUID. -/
def getCurrentWorkspace (user : User) (wanted : Option Uuid) :
    TenancyProg (Workspace × List Member) := do
  let membership ← Prog.ask fun s => s.activeSeats user.id
  Prog.check (membership ≠ []) (.http 403 "workspace.none" "no workspace" [])
  let chosen ← Prog.ask fun s =>
    (wanted.filter fun id => membership.any (·.workspaceId = id)).bind s.workspace?
  let fallback ← Prog.ask fun s => membership.head?.bind fun m => s.workspace? m.workspaceId
  let ws ← Prog.orRaise (chosen.or fallback)
    (.http 403 "workspace.not_found" "workspace not found" [])
  pure (ws, membership)

def membershipRole (loaded : List Member) (user : User) (ws : Workspace) : TenancyProg Role :=
  Prog.ask fun s =>
    match s.activeSeat? ws.id user.id with
    | some m => (identity loaded m).role
    | none => .viewer

def Role.str : Role → String
  | .viewer => "viewer"
  | .member => "member"
  | .admin => "admin"
  | .owner => "owner"

def requireRole (minRole : Role) (loaded : List Member) (user : User) (ws : Workspace) :
    TenancyProg Unit := do
  let role ← membershipRole loaded user ws
  Prog.check (minRole.rank ≤ role.rank)
    (.http 403 "resource.insufficient_role" s!"requires role {Role.str minRole}+"
      [("required_role", Role.str minRole)])

/-- `Depends(require_role("admin"))`, which needs the user and the workspace first -/
def adminDependencies (userId : Uuid) (wanted : Option Uuid) :
    TenancyProg (User × Workspace × List Member) := do
  let user ← getCurrentUser userId
  let (ws, loaded) ← getCurrentWorkspace user wanted
  requireRole .admin loaded user ws
  pure (user, ws, loaded)

/-! ### Workspaces and members (api/routes/workspaces.py) -/

def createWorkspace (userId : Uuid) (payload : WorkspaceCreateIn) (workspaceId memberId : Uuid) :
    TenancyProg Unit := do
  let user ← getCurrentUser userId
  let existingCount ← Prog.ask fun s => s.ownedOrganizationCount user.id
  Prog.check (existingCount < ownedOrgWorkspaceCap)
    (.http 409 "workspace.owned_cap_reached" "owned-workspace cap reached"
      [("existing_count", toString existingCount), ("cap", toString ownedOrgWorkspaceCap)])
  Prog.take (.workspace workspaceId)
  let taken ← Prog.ask fun s => s.workspaces.any (·.id = workspaceId)
  Prog.check (taken = false) (.integrity "workspaces_pkey")
  Prog.put fun s => s.addWorkspace
    ⟨workspaceId, payload.name, .organization, user.id, payload.currencyDefault⟩
  let inserted ← insertMember ⟨memberId, workspaceId, user.id, .owner, .active⟩
  Prog.check (inserted = true) (.integrity "uq_workspace_member")
  Prog.commitAs (.created workspaceId user.id)

/-- `assert_in_workspace` for a member, with the route's own 404 -/
def loadMember (loaded : List Member) (ws : Workspace) (memberId : Uuid) : TenancyProg Member := do
  let row ← Prog.ask fun s => (s.member? ws.id memberId).map (identity loaded)
  Prog.orRaise row (.http 404 "workspace.member_not_found" "member not found" [])

/-- The values `setattr` leaves on the loaded member; none where one of them is null. -/
def MemberPatch.apply (payload : MemberPatch) (m : Member) : Option Member :=
  match payload.role.getD (some m.role), payload.status.map (·.map PatchStatus.status) with
  | some role, none => some { m with role := role }
  | some role, some (some status) => some { m with role := role, status := status }
  | _, _ => none

/-- `payload.role and payload.role != "owner"` -/
def MemberPatch.demotes (payload : MemberPatch) : Bool :=
  payload.role ≠ none ∧ payload.role ≠ some none ∧ payload.role ≠ some (some .owner)

/-- The last-owner check, made where `ending` holds; it gives the number it counted. -/
def lastOwnerCheck (ending : Prop) [Decidable ending] (workspaceId : Uuid) (message : String) :
    TenancyProg (Option ℕ) :=
  if ending then do
    let owners ← Prog.ask fun s => s.activeOwnerCount workspaceId
    Prog.check (1 < owners) (.http 400 "workspace.last_owner" message [])
    pure (some owners)
  else pure none

/-- Where the owner role is touched, the caller has to be an owner. -/
def ownerRoleCheck (touched : Prop) [Decidable touched] (loaded : List Member) (user : User)
    (ws : Workspace) : TenancyProg Unit :=
  if touched then do
    let myRole ← Prog.ask fun s => (s.seat? ws.id user.id).map (identity loaded)
    Prog.check (myRole.any fun mine => mine.role = .owner)
      (.http 403 "workspace.owner_only" "only owners can manage owner role" [])
  else pure ()

def patchMember (userId : Uuid) (wanted : Option Uuid) (memberId : Uuid) (payload : MemberPatch) :
    TenancyProg Unit := do
  let (user, ws, loaded) ← adminDependencies userId wanted
  let m ← loadMember loaded ws memberId
  ownerRoleCheck (payload.role = some (some .owner) ∨ m.role = .owner) loaded user ws
  let counted ← lastOwnerCheck (m.role = .owner ∧ payload.demotes) ws.id
    "cannot demote the last owner"
  let new ← Prog.orRaise (payload.apply m) (.integrity "not_null")
  flushMember m new
  Prog.commitAs (.patched m payload counted)

/-- `revoke_all_for_user`; it gives the number of events when it read the tokens. -/
def revokeAllForUser (workspaceId userId : Uuid) : TenancyProg ℕ := do
  let now ← Prog.ask (·.now)
  let (ids, events) ← Prog.ask fun s =>
    ((s.liveTokens workspaceId userId).map (·.id), s.history.length)
  Prog.takeAll (ids.map .token)
  Prog.put fun s => s.revokeTokens ids now
  pure events

def removeMember (userId : Uuid) (wanted : Option Uuid) (memberId : Uuid) : TenancyProg Unit := do
  let (user, ws, loaded) ← adminDependencies userId wanted
  let m ← loadMember loaded ws memberId
  Prog.check (m.userId ≠ user.id)
    (.http 400 "workspace.self_remove" "cannot remove yourself; transfer ownership first" [])
  let counted ← lastOwnerCheck (m.role = .owner) ws.id "cannot remove the last owner"
  let events ← revokeAllForUser ws.id m.userId
  Prog.take (.seat m.workspaceId m.userId)
  Prog.put fun s => (s.deleteMember m.id).record (.memberRemoved ws.id m.userId events)
  Prog.commitAs (.removed m counted)

/-! ### Invitations (api/routes/invitations.py) -/

section Invitations

variable (env : Env)

/-- `create_invitation`; `plaintext` is the token it mints. -/
def createInvitation (userId : Uuid) (wanted : Option Uuid) (payload : InviteIn)
    (invitationId : Uuid) (plaintext : String) : TenancyProg Unit := do
  let (user, ws, _) ← adminDependencies userId wanted
  let email := env.lower payload.email
  let existingMember ← Prog.ask fun s => s.memberWithEmail? env ws.id email
  Prog.check (existingMember = none)
    (.http 409 "invitation.already_member" "user is already a member" [])
  let existing ← Prog.ask fun s => s.pendingInvitation? ws.id email
  if existing.isSome then pure ()
  else do
    let now ← Prog.ask (·.now)
    let row : Invitation := ⟨invitationId, ws.id, email, payload.role.role,
      some (env.hmac plaintext), .pending, some user.id,
      now + env.invitationTtlDays * microsPerDay, none, none⟩
    Prog.take (.invitation row.id)
    Prog.take (.pendingInvitation row.workspaceId row.email)
    let taken ← Prog.ask fun s => s.invitations.any fun inv => inv.id = row.id ∨
      (inv.workspaceId = row.workspaceId ∧ inv.email = row.email ∧ inv.status = .pending)
    -- The lost race rolls back; what the route still reads changes nothing.
    if taken then Prog.undo
    else do
      Prog.put fun s => s.addInvitation row
      Prog.commitAs (.invited row)

def invitationNotFound : Refusal :=
  .http 404 "invitation.not_found" "invitation not found" []

def revokeInvitation (userId : Uuid) (wanted : Option Uuid) (invitationId : Uuid) :
    TenancyProg Unit := do
  let (_, ws, _) ← adminDependencies userId wanted
  let row ← Prog.ask fun s => s.invitations.find? fun inv =>
    inv.id = invitationId ∧ inv.workspaceId = ws.id
  let inv ← Prog.orRaise row invitationNotFound
  Prog.check (inv.status = .pending) (.http 400 "invitation.not_pending"
    s!"cannot revoke a {inv.status.str} invitation" [("invitation_status", inv.status.str)])
  flushInvitation inv { inv with status := .revoked }
  Prog.put fun s => s.record (.invitationRevoked inv.id)
  Prog.commitAs (.withdrawn inv)

/-- The seat `accept_invitation` leaves a member with. -/
def Member.seated (m : Member) (role : Role) : Member := { m with role := role, status := .active }

def Invitation.taken (inv : Invitation) (now : Timestamp) (userId : Uuid) : Invitation :=
  { inv with status := .accepted, acceptedAt := some now, acceptedBy := some userId }

def State.recordSeat (s : State) (invitationId userId : Uuid) (read : Reading) : State :=
  s.record (.seatGiven invitationId userId read)

/-- `if colliding_member:` its role and status are set -/
def reseat (colliding : Option Member) (role : Role) : TenancyProg Unit :=
  match colliding with
  | some m => flushMember m (m.seated role)
  | none => pure ()

/-- `if fresh_inv and fresh_inv.status != "accepted":` the invitation is taken -/
def retake (fresh : Option Invitation) (now : Timestamp) (userId : Uuid) : TenancyProg Unit :=
  match fresh.filter fun row => row.status ≠ .accepted with
  | some row => flushInvitation row (row.taken now userId)
  | none => pure ()

/-- What `accept_invitation` does when the flush has met a row of the same key. -/
def acceptCollided (inv : Invitation) (userId : Uuid) (read : Reading) : TenancyProg Unit := do
  Prog.undo
  let colliding ← Prog.ask fun s => s.seat? inv.workspaceId userId
  let fresh ← Prog.ask fun s => s.invitation? inv.id
  let now ← Prog.ask (·.now)
  Prog.put fun s => s.recordSeat inv.id userId read
  reseat colliding inv.role
  retake fresh now userId
  Prog.commitAs (.accepted inv colliding)

/-- The seat's part of the flush: `UPDATE` where there was a member, else `INSERT`. -/
def takeSeat (existing : Option Member) (row : Member) : TenancyProg Bool :=
  match existing with
  | some m => do
    flushMember m (m.seated row.role)
    pure true
  | none => insertMember row

/-- `accept_invitation`; `token` is the composite token, where it has the two parts.
`memberId` is the id of the seat it may insert. -/
def acceptInvitation (userId : Uuid) (token : Option (Uuid × String)) (memberId : Uuid) :
    TenancyProg Unit := do
  let user ← getCurrentUser userId
  let (invitationId, plaintext) ← Prog.orRaise token invitationNotFound
  let row ← Prog.ask fun s => (s.invitation? invitationId).map fun inv => (inv, s.read inv.id)
  let (inv, read) ← Prog.orRaise
    (row.filter fun row => row.1.tokenHmac = some (env.hmac plaintext)) invitationNotFound
  Prog.check (inv.status = .pending) (.http 400 "invitation.not_pending"
    s!"invitation is {inv.status.str}" [("invitation_status", inv.status.str)])
  let checked ← Prog.ask (·.now)
  Prog.check (checked < inv.expiresAt)
    (.http 410 "invitation.expired" "invitation has expired" [])
  Prog.check (env.lower inv.email = env.lower user.email)
    (.http 403 "invitation.email_mismatch" "invitation is for a different email" [])
  let existing ← Prog.ask fun s => s.seat? inv.workspaceId user.id
  let now ← Prog.ask (·.now)
  Prog.put fun s => s.recordSeat inv.id user.id read
  let seated ← takeSeat existing ⟨memberId, inv.workspaceId, user.id, inv.role, .active⟩
  if seated then do
    flushInvitation inv (inv.taken now user.id)
    Prog.commitAs (.accepted inv existing)
  else acceptCollided inv user.id read

/-! ### API tokens (api/routes/tokens.py, domain/tokens/service.py) -/

/-- `create_token`; `secret` is the secret half it draws. -/
def createToken (userId : Uuid) (wanted : Option Uuid) (payload : ApiTokenIn) (tokenId : Uuid)
    (secret : String) : TenancyProg Unit := do
  let requested ← Prog.ask (·.history.length)
  let user ← getCurrentUser userId
  let (ws, _) ← getCurrentWorkspace user wanted
  let now ← Prog.ask (·.now)
  let row : ApiToken := ⟨tokenId, ws.id, user.id, payload.label, env.hmac secret, payload.readOnly,
    payload.expiresInDays.map fun days => now + days * microsPerDay, none, none, requested⟩
  Prog.take (.token row.id)
  let taken ← Prog.ask fun s => s.tokens.any (·.id = row.id)
  Prog.check (taken = false) (.integrity "api_tokens_pkey")
  Prog.put fun s => (s.addToken row).record (.tokenMinted row.id)
  Prog.commitAs (.minted row)

/-- `resolve_token`, for a plaintext that reads as an id and a secret -/
def resolveToken (s : State) (tokenId : Uuid) (secret : String) : Option ApiToken :=
  (s.tokens.find? (·.id = tokenId)).filter fun t => t.tokenHmac = env.hmac secret ∧
    t.revokedAt = none ∧ (∀ expiresAt ∈ t.expiresAt, s.now < expiresAt) ∧ t.archivedAt = none

/-- `resolve_live_token`: the token is live, and its user a member still. -/
def resolveLiveToken (s : State) (tokenId : Uuid) (secret : String) : Option (User × ApiToken) :=
  (resolveToken env s tokenId secret).bind fun t =>
    ((s.user? t.userId).filter fun _ => (s.activeSeat? t.workspaceId t.userId).isSome).map
      fun user => (user, t)

end Invitations

/-! ### Requests -/

inductive Request
  | createWorkspace (userId : Uuid) (payload : WorkspaceCreateIn) (workspaceId memberId : Uuid)
  | patchMember (userId : Uuid) (wanted : Option Uuid) (memberId : Uuid) (payload : MemberPatch)
  | removeMember (userId : Uuid) (wanted : Option Uuid) (memberId : Uuid)
  | createInvitation (userId : Uuid) (wanted : Option Uuid) (payload : InviteIn)
      (invitationId : Uuid) (plaintext : String)
  | revokeInvitation (userId : Uuid) (wanted : Option Uuid) (invitationId : Uuid)
  | acceptInvitation (userId : Uuid) (token : Option (Uuid × String)) (memberId : Uuid)
  | createToken (userId : Uuid) (wanted : Option Uuid) (payload : ApiTokenIn) (tokenId : Uuid)
      (secret : String)

/-- The user who makes the request. -/
def Request.userId : Request → Uuid
  | createWorkspace userId .. | patchMember userId .. | removeMember userId ..
  | createInvitation userId .. | revokeInvitation userId .. | acceptInvitation userId ..
  | createToken userId .. => userId

def Request.prog (env : Env) : Request → TenancyProg Unit
  | createWorkspace userId payload workspaceId memberId =>
    Tenancy.createWorkspace userId payload workspaceId memberId
  | patchMember userId wanted memberId payload => Tenancy.patchMember userId wanted memberId payload
  | removeMember userId wanted memberId => Tenancy.removeMember userId wanted memberId
  | createInvitation userId wanted payload invitationId plaintext =>
    Tenancy.createInvitation env userId wanted payload invitationId plaintext
  | revokeInvitation userId wanted invitationId =>
    Tenancy.revokeInvitation userId wanted invitationId
  | acceptInvitation userId token memberId => Tenancy.acceptInvitation env userId token memberId
  | createToken userId wanted payload tokenId secret =>
    Tenancy.createToken env userId wanted payload tokenId secret

/-- Time passes, and the clock does not run backwards. -/
def tick (elapsed : ℕ) (s : State) : State := { s with now := s.now + elapsed }

end StockManager.Tenancy
