import StockManager.Effects.TenancySteps

/-! # What a request changes when no other runs -/

namespace StockManager.Tenancy

open Sessions

/-- The user has an active seat of this rank in the workspace. -/
def HasRank (s : State) (workspaceId userId : Uuid) (rank : ℕ) : Prop :=
  ∃ m ∈ s.members, m.workspaceId = workspaceId ∧ m.userId = userId ∧ m.status = .active ∧
    m.role.rank = rank

def ActiveOwner (s : State) (workspaceId userId : Uuid) : Prop :=
  HasRank s workspaceId userId Role.owner.rank

/-- An active admin or owner -/
def ActiveAdmin (s : State) (workspaceId userId : Uuid) : Prop :=
  ∃ m ∈ s.members, m.workspaceId = workspaceId ∧ m.userId = userId ∧ m.status = .active ∧
    Role.admin.rank ≤ m.role.rank

instance (s : State) (workspaceId userId : Uuid) : Decidable (ActiveOwner s workspaceId userId) :=
  inferInstanceAs (Decidable (∃ m ∈ s.members, _))

instance (s : State) (workspaceId userId : Uuid) : Decidable (ActiveAdmin s workspaceId userId) :=
  inferInstanceAs (Decidable (∃ m ∈ s.members, _))

def Member.seatKey (m : Member) : Uuid × Uuid := (m.workspaceId, m.userId)

/-- No two rows of a table have one id, and nobody has two seats in a workspace. -/
structure Keyed (s : State) : Prop where
  memberIds : (s.members.map (·.id)).Nodup
  seats : (s.members.map Member.seatKey).Nodup
  invitationIds : (s.invitations.map (·.id)).Nodup

section Keyed

variable {s : State} (h : Keyed s) {a b : Member}

include h

theorem Keyed.eq_of_id (ha : a ∈ s.members) (hb : b ∈ s.members) (hid : a.id = b.id) : a = b :=
  List.inj_on_of_nodup_map h.memberIds ha hb hid

theorem Keyed.eq_of_seat (ha : a ∈ s.members) (hb : b ∈ s.members)
    (hws : a.workspaceId = b.workspaceId) (huser : a.userId = b.userId) : a = b :=
  List.inj_on_of_nodup_map h.seats ha hb (Prod.ext hws huser)

theorem identity_activeSeats (ha : a ∈ s.members) (userId : Uuid) :
    identity (s.activeSeats userId) a = a := by
  unfold identity
  cases hfind : (s.activeSeats userId).find? (·.id = a.id) with
  | none => rfl
  | some b =>
    have hb : b ∈ s.members := (List.mem_filter.mp (List.mem_of_find?_eq_some hfind)).1
    have hid := List.find?_some hfind
    simp only [decide_eq_true_eq] at hid
    exact h.eq_of_id hb ha hid

end Keyed

/-- What a request did, and what held of the state when it did it. -/
inductive Change (env : Env) (s : State) : Request → State → Prop
  | founded {userId : Uuid} {payload : WorkspaceCreateIn} {workspaceId memberId : Uuid}
      {row : Workspace} (hrow : row.id = workspaceId) (hfresh : ∀ w ∈ s.workspaces, w.id ≠ workspaceId)
      (hfree : ¬ s.SeatTaken ⟨memberId, workspaceId, userId, .owner, .active⟩) :
      Change env s (.createWorkspace userId payload workspaceId memberId)
        (s.founded row ⟨memberId, workspaceId, userId, .owner, .active⟩)
  | patched {userId : Uuid} {wanted : Option Uuid} {payload : MemberPatch} {m new : Member}
      (hm : m ∈ s.members) (hadmin : ActiveAdmin s m.workspaceId userId)
      (howner : payload.role = some (some .owner) ∨ m.role = .owner →
        ActiveOwner s m.workspaceId userId)
      (hnew : payload.apply m = some new) :
      Change env s (.patchMember userId wanted m.id payload) (s.patched m new)
  | removed {userId workspaceId : Uuid} {wanted : Option Uuid} {m : Member} {ids : List Uuid}
      {now : Timestamp} {events : ℕ}
      (hm : m ∈ s.members) (hadmin : ActiveAdmin s m.workspaceId userId)
      (hmany : m.role = .owner → 1 < s.activeOwnerCount m.workspaceId) :
      Change env s (.removeMember userId wanted m.id) (s.removed workspaceId m ids now events)
  | invited {userId : Uuid} {wanted : Option Uuid} {payload : InviteIn} {plaintext : String}
      {row : Invitation} (hadmin : ActiveAdmin s row.workspaceId userId)
      (hplace : ∃ w ∈ s.workspaces, w.id = row.workspaceId)
      (hissuer : row.invitedBy = some userId) (hemail : row.email = env.lower payload.email)
      (hrole : row.role = payload.role.role) (hstatus : row.status = .pending)
      (hnew : s.memberWithEmail? env row.workspaceId row.email = none)
      (hfresh : ∀ inv ∈ s.invitations, inv.id ≠ row.id ∧
        ¬ (inv.workspaceId = row.workspaceId ∧ inv.email = row.email ∧ inv.status = .pending)) :
      Change env s (.createInvitation userId wanted payload row.id plaintext) (s.addInvitation row)
  | withdrawn {userId : Uuid} {wanted : Option Uuid} {inv : Invitation}
      (hpending : inv.status = .pending) :
      Change env s (.revokeInvitation userId wanted inv.id) (s.withdrawn inv)
  | accepted {user : User} {token : Option (Uuid × String)} {inv : Invitation} {row : Member}
      {read : Reading} {now : Timestamp} (hbasis : AcceptBasis env (s = ·) user.id user inv)
      (hrow : row.workspaceId = inv.workspaceId ∧ row.userId = user.id ∧ row.role = inv.role ∧
        row.status = .active)
      (hfree : s.seat? inv.workspaceId user.id = none → ¬ s.SeatTaken row) :
      Change env s (.acceptInvitation user.id token row.id)
        (s.accepted inv read (s.seat? inv.workspaceId user.id) row now)
  | collided {user : User} {token : Option (Uuid × String)} {memberId : Uuid} {inv : Invitation}
      {read : Reading} {now : Timestamp} (hbasis : AcceptBasis env (s = ·) user.id user inv) :
      Change env s (.acceptInvitation user.id token memberId)
        (s.collided inv read user.id (s.seat? inv.workspaceId user.id) (s.invitation? inv.id) now)
  | minted {userId : Uuid} {wanted : Option Uuid} {payload : ApiTokenIn} {secret : String}
      {row : ApiToken} : Change env s (.createToken userId wanted payload row.id secret)
        ((s.addToken row).record (.tokenMinted row.id))

variable {env : Env} {s : State}

theorem user?_id {userId : Uuid} {user : User} (h : s.user? userId = some user) :
    user.id = userId := by
  have hid := List.find?_some h
  simpa only [decide_eq_true_eq] using hid

theorem member?_spec {workspaceId memberId : Uuid} {m : Member}
    (h : s.member? workspaceId memberId = some m) :
    m ∈ s.members ∧ m.id = memberId ∧ m.workspaceId = workspaceId := by
  have hfound := List.find?_some h
  simp only [decide_eq_true_eq] at hfound
  exact ⟨List.mem_of_find?_eq_some h, hfound⟩

theorem seat?_spec {workspaceId userId : Uuid} {m : Member}
    (h : s.seat? workspaceId userId = some m) :
    m ∈ s.members ∧ m.workspaceId = workspaceId ∧ m.userId = userId := by
  have hfound := List.find?_some h
  simp only [decide_eq_true_eq] at hfound
  exact ⟨List.mem_of_find?_eq_some h, hfound⟩

section Alone

variable {user : User} {ws : Workspace} {loaded : List Member} {userId : Uuid} {m : Member}

theorem loaded_of_basis (h : AdminBasis (s = ·) userId user ws loaded) :
    loaded = s.activeSeats user.id := by
  obtain ⟨_, rfl, hloaded⟩ := h.memberships
  exact hloaded

theorem caller_of_basis (h : AdminBasis (s = ·) userId user ws loaded) : user.id = userId := by
  obtain ⟨_, rfl, huser⟩ := h.caller
  exact user?_id huser

theorem activeAdmin_of_basis (hkeyed : Keyed s) (h : AdminBasis (s = ·) userId user ws loaded) :
    ActiveAdmin s ws.id userId := by
  have hloaded := loaded_of_basis h
  have hcaller := caller_of_basis h
  obtain ⟨_, rfl, mine, hmine⟩ := h.seat
  subst hloaded
  have hrank := hmine.admin
  rw [identity_activeSeats hkeyed hmine.mem] at hrank
  exact ⟨mine, hmine.mem, hmine.workspace, hmine.user.trans hcaller, hmine.active, hrank⟩

theorem loadedMember_spec (hkeyed : Keyed s) (h : AdminBasis (s = ·) userId user ws loaded)
    {memberId : Uuid} (hm : LoadedMember (s = ·) ws loaded memberId m) :
    m ∈ s.members ∧ m.id = memberId ∧ m.workspaceId = ws.id := by
  have hloaded := loaded_of_basis h
  obtain ⟨_, rfl, row, hrow, rfl⟩ := hm
  subst hloaded
  have hspec := member?_spec hrow
  rw [identity_activeSeats hkeyed hspec.1]
  exact hspec

theorem activeOwner_of_calls (hkeyed : Keyed s) (h : AdminBasis (s = ·) userId user ws loaded)
    (howner : OwnerCalls (s = ·) loaded user ws) : ActiveOwner s ws.id userId := by
  have hloaded := loaded_of_basis h
  have hcaller := caller_of_basis h
  obtain ⟨_, rfl, seat, hseat⟩ := h.seat
  obtain ⟨_, rfl, mine, hmine, hrole⟩ := howner
  subst hloaded
  obtain ⟨hmem, hws, huser⟩ := seat?_spec hmine
  have heq : mine = seat :=
    hkeyed.eq_of_seat hmem hseat.mem (hws.trans hseat.workspace.symm) (huser.trans hseat.user.symm)
  subst heq
  rw [identity_activeSeats hkeyed hmem] at hrole
  exact ⟨mine, hmem, hws, huser.trans hcaller, hseat.active, by rw [hrole]⟩

end Alone

section Requests

variable {Seen Seen' : State → Prop} {user : User} {ws : Workspace} {loaded : List Member}
  {userId : Uuid}

theorem AdminBasis.imp (himp : ∀ t, Seen t → Seen' t) (h : AdminBasis Seen userId user ws loaded) :
    AdminBasis Seen' userId user ws loaded :=
  ⟨h.caller.imp fun t ht => ⟨himp t ht.1, ht.2⟩, h.memberships.imp fun t ht => ⟨himp t ht.1, ht.2⟩,
    h.workspace.imp fun t ht => ⟨himp t ht.1, ht.2⟩, h.seat.imp fun t ht => ⟨himp t ht.1, ht.2⟩⟩

theorem AcceptBasis.imp {inv : Invitation} (himp : ∀ t, Seen t → Seen' t)
    (h : AcceptBasis env Seen userId user inv) : AcceptBasis env Seen' userId user inv :=
  ⟨h.caller.imp fun t ht => ⟨himp t ht.1, ht.2⟩, h.row.imp fun t ht => ⟨himp t ht.1, ht.2⟩,
    h.pending, h.unexpired.imp fun t ht => ⟨himp t ht.1, ht.2⟩, h.address⟩

abbrev Left (env : Env) (s : State) (r : Request) : State → Prop := fun t => t = s ∨ Change env s r t

variable {r : Request}

theorem sees_left {t : State}
    (h : Sees (Protocol.solo (Left env s r) : Protocol Unit State Lock Mark) () s t) : s = t :=
  under_solo h

theorem keeps_change {more : List Lock} {t u : State} (h : Change env s r u) :
    Keeps (Protocol.solo (Left env s r) : Protocol Unit State Lock Mark) () more t u :=
  keeps_solo.mpr (Or.inr h)

/-- What a request leaves behind when no other runs. -/
theorem change_of_request (hkeyed : Keyed s) (r : Request) :
    Left env s r ((r.prog env).alone id s) := by
  refine inv_alone_of_solo (Q := fun _ _ _ _ => True) ?_ (Or.inl rfl)
  cases r with
  | createWorkspace userId payload workspaceId memberId =>
    refine wp_createWorkspace fun user row huser hrow hfresh seat hseated _ _ _ _ u hu hfree t ht _ =>
      keeps_change ?_
    obtain rfl := sees_left (hu.later ht)
    obtain ⟨_, h, hfound⟩ := huser
    obtain rfl := sees_left h
    obtain rfl := user?_id hfound
    obtain ⟨_, h, hunused⟩ := hfresh
    obtain rfl := sees_left h
    obtain rfl := sees_left hu
    subst hseated
    exact .founded hrow hunused hfree
  | patchMember userId wanted memberId payload =>
    refine wp_patchMember fun user ws loaded m new _ hbasis hm howner _ hnew _ _ t ht _ _ =>
      keeps_change ?_
    obtain rfl := sees_left ht
    have hadmin := hbasis.imp fun _ => sees_left
    obtain ⟨hmem, rfl, hws⟩ := loadedMember_spec hkeyed hadmin (hm.imp fun _ h => ⟨sees_left h.1, h.2⟩)
    refine .patched hmem (hws ▸ activeAdmin_of_basis hkeyed hadmin) (fun htouched => ?_) hnew
    exact hws ▸ activeOwner_of_calls hkeyed hadmin
      ((howner htouched).imp fun _ h => ⟨sees_left h.1, h.2⟩)
  | removeMember userId wanted memberId =>
    refine wp_removeMember fun user ws loaded m _ now hbasis hm _ hcounted r hr _ ids _ _ _ _ t ht
      _ _ => keeps_change ?_
    obtain rfl := sees_left hr
    obtain rfl := sees_left ht
    have hadmin := hbasis.imp fun _ => sees_left
    obtain ⟨hmem, rfl, hws⟩ := loadedMember_spec hkeyed hadmin (hm.imp fun _ h => ⟨sees_left h.1, h.2⟩)
    refine .removed hmem (hws ▸ activeAdmin_of_basis hkeyed hadmin) fun howner => ?_
    obtain ⟨_, h, hmany, _⟩ := hcounted.1 howner
    obtain rfl := sees_left h
    exact hws ▸ hmany
  | createInvitation userId wanted payload invitationId plaintext =>
    refine wp_createInvitation fun user ws loaded row hbasis hid hws hemail hstatus hissuer hrole _ hmember
      _ _ _ u hu hunused t ht _ => keeps_change ?_
    obtain rfl := sees_left (hu.later ht)
    have hadmin := hbasis.imp fun _ => sees_left
    obtain ⟨_, h, hnone⟩ := hmember
    obtain rfl := sees_left h
    obtain rfl := sees_left hu
    rw [← hws] at hnone hunused
    subst hid
    obtain ⟨_, rfl, hplace⟩ := hadmin.workspace
    exact .invited (hws ▸ activeAdmin_of_basis hkeyed hadmin) ⟨ws, hplace, hws.symm⟩
      (caller_of_basis hadmin ▸ hissuer) hemail hrole hstatus hnone hunused
  | revokeInvitation userId wanted invitationId =>
    refine wp_revokeInvitation fun inv hid hpending r hr _ _ _ _ t ht _ _ => keeps_change ?_
    obtain rfl := sees_left (hr.under ht)
    exact hid ▸ .withdrawn hpending
  | acceptInvitation userId token memberId =>
    refine wp_acceptInvitation
      (fun user inv hbasis r hr existing now hexisting row hrow _ _ _ _ _ t ht hfree _ _ =>
        keeps_change ?_)
      (fun user inv hbasis r hr seat row now hseat v hv _ hrow _ _ _ t ht _ _ => keeps_change ?_)
    · obtain rfl := sees_left (hr.1.under ht)
      have haccept := hbasis.imp fun _ => sees_left
      obtain ⟨_, h, rfl⟩ := hexisting
      obtain rfl := sees_left h
      obtain ⟨_, rfl, hfound⟩ := haccept.caller
      obtain rfl := user?_id hfound
      have hid : row.id = memberId := by rw [hrow]
      subst hid
      refine .accepted haccept ⟨?_, ?_, ?_, ?_⟩ fun hnone => ?_
      iterate 4 rw [hrow]
      obtain ⟨_, h, hunused, _⟩ := hfree hnone
      obtain rfl := sees_left h
      exact hunused
    · obtain rfl := sees_left ((hr.1.under hv).under ht)
      have haccept := hbasis.imp fun _ => sees_left
      obtain ⟨_, h, rfl⟩ := hseat
      obtain rfl := sees_left h
      obtain rfl := sees_left (hr.1.under hv)
      subst hrow
      obtain ⟨_, rfl, hfound⟩ := haccept.caller
      obtain rfl := user?_id hfound
      exact .collided haccept
  | createToken userId wanted payload tokenId secret =>
    refine wp_createToken fun row hid _ start hstart _ _ _ u hu _ t ht _ => keeps_change ?_
    obtain rfl := sees_left hstart
    obtain rfl := sees_left (hu.later ht)
    exact hid ▸ .minted

end Requests

end StockManager.Tenancy
