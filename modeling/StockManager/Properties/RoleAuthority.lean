import Mathlib
import StockManager.Effects.TenancyChanges
import StockManager.Effects.TenancyRows

/-! # Who changes who owns a workspace -/

namespace StockManager.Tenancy

open Sessions

variable {env : Env} {s t : State}
variable {r : Request} {workspaceId userId : Uuid} {inv : Invitation} {rank : ℕ} {row m : Member}
  {start : State}

theorem mem_patched (hkeyed : Keyed s) {m new k : Member} (hm : m ∈ s.members) :
    k ∈ (s.patched m new).members ↔ (k ∈ s.members ∧ k.id ≠ m.id) ∨ k = m.stored new m := by
  rw [patched_members, List.mem_map]
  constructor
  · intro ⟨a, ha, hk⟩
    split at hk
    next hid =>
      have heq : a = m := hkeyed.eq_of_id ha hm hid
      exact Or.inr (hk ▸ heq ▸ rfl)
    next hid => exact Or.inl (hk ▸ ⟨ha, hid⟩)
  · intro hk
    rcases hk with ⟨hk, hid⟩ | rfl
    · exact ⟨k, hk, if_neg hid⟩
    · exact ⟨m, hm, if_pos rfl⟩

theorem hasRank_patched_of_ne (hkeyed : Keyed s) {m new : Member} (hm : m ∈ s.members)
    (hne : (workspaceId, userId) ≠ m.seatKey) :
    HasRank (s.patched m new) workspaceId userId rank ↔ HasRank s workspaceId userId rank := by
  constructor
  · intro ⟨k, hk, hws, huser, hrest⟩
    rcases (mem_patched hkeyed hm).mp hk with ⟨hk, _⟩ | rfl
    · exact ⟨k, hk, hws, huser, hrest⟩
    · rw [stored_loaded] at hws huser
      exact absurd (Prod.ext hws.symm huser.symm) hne
  · intro ⟨k, hk, hws, huser, hrest⟩
    refine ⟨k, (mem_patched hkeyed hm).mpr (Or.inl ⟨hk, fun hid => hne ?_⟩), hws, huser, hrest⟩
    have heq : k = m := hkeyed.eq_of_id hk hm hid
    subst heq
    exact Prod.ext hws.symm huser.symm

theorem hasRank_removed_of_ne (hkeyed : Keyed s) {place : Uuid} {ids : List Uuid}
    {now : Timestamp} {events : ℕ}
    (hm : m ∈ s.members)
    (hne : (workspaceId, userId) ≠ m.seatKey) :
    HasRank (s.removed place m ids now events) workspaceId userId rank ↔
      HasRank s workspaceId userId rank := by
  constructor
  · intro ⟨k, hk, hrest⟩
    exact ⟨k, (List.mem_filter.mp hk).1, hrest⟩
  · intro ⟨k, hk, hws, huser, hrest⟩
    refine ⟨k, List.mem_filter.mpr ⟨hk, ?_⟩, hws, huser, hrest⟩
    refine decide_eq_true fun hid => hne ?_
    have heq : k = m := hkeyed.eq_of_id hk hm hid
    subst heq
    exact Prod.ext hws.symm huser.symm

/-- Invitations are stored in lower case and for a workspace there is, none is for an owner,
an address has one that is pending, and none that is pending is for a member. -/
structure InvitationsOrdered (env : Env) (s : State) : Prop where
  lowered : ∀ inv ∈ s.invitations, env.lower inv.email = inv.email
  noOwner : ∀ inv ∈ s.invitations, inv.role ≠ .owner
  onePending : ∀ a ∈ s.invitations, ∀ b ∈ s.invitations, a.status = .pending → b.status = .pending →
    a.workspaceId = b.workspaceId → a.email = b.email → a = b
  placed : ∀ inv ∈ s.invitations, ∃ w ∈ s.workspaces, w.id = inv.workspaceId
  strangers : ∀ inv ∈ s.invitations, inv.status = .pending → ∀ m ∈ s.members,
    m.workspaceId = inv.workspaceId → ∀ u ∈ s.users, u.id = m.userId → env.lower u.email ≠ inv.email

/-- The users' ids are unique, and the database and Python agree on the lower case of
their addresses, which lower case leaves alone. -/
structure Folded (env : Env) (users : List User) : Prop where
  ids : (users.map (·.id)).Nodup
  lower_lower : ∀ text, env.lower (env.lower text) = env.lower text
  sqlLower : ∀ u ∈ users, env.sqlLower u.email = env.lower u.email

structure Consistent (env : Env) (s : State) : Prop where
  keyed : Keyed s
  ordered : InvitationsOrdered env s
  folded : Folded env s.users

theorem mem_updateInvitation {inv new k : Invitation} (hpending : inv.status = .pending)
    (hclosed : new.status ≠ .pending) (hk : k ∈ (s.updateInvitation inv new).invitations) :
    ∃ k₀ ∈ s.invitations, k.id = k₀.id ∧ k.workspaceId = k₀.workspaceId ∧ k.email = k₀.email ∧
      k.role = k₀.role ∧ k.invitedBy = k₀.invitedBy ∧
      (k.status = .pending → k = k₀ ∧ k₀.id ≠ inv.id) := by
  obtain ⟨k₀, hk₀, rfl⟩ := List.mem_map.mp hk
  refine ⟨k₀, hk₀, ?_⟩
  split
  next hid =>
    refine ⟨rfl, rfl, rfl, rfl, rfl, fun hstatus => ?_⟩
    have hwritten : written inv.status new.status k₀.status = new.status := by
      unfold written
      exact if_neg (hpending ▸ hclosed)
    exact absurd (hwritten.symm.trans hstatus) hclosed
  next hid => exact ⟨rfl, rfl, rfl, rfl, rfl, fun _ => ⟨rfl, hid⟩⟩

theorem ordered_of_closed {inv new : Invitation} (h : InvitationsOrdered env s)
    (hpending : inv.status = .pending) (hclosed : new.status ≠ .pending)
    (hinv : t.invitations = (s.updateInvitation inv new).invitations)
    (hws : t.workspaces = s.workspaces)
    (hmembers : ∀ k ∈ s.invitations, k.status = .pending → k.id ≠ inv.id → ∀ m ∈ t.members,
      m.workspaceId = k.workspaceId → ∀ u ∈ t.users, u.id = m.userId → env.lower u.email ≠ k.email) :
    InvitationsOrdered env t := by
  have hback : ∀ k ∈ t.invitations, _ := fun k hk =>
    mem_updateInvitation (s := s) hpending hclosed (hinv ▸ hk)
  refine ⟨fun k hk => ?_, fun k hk => ?_, fun a ha b hb hpa hpb => ?_, fun k hk => ?_,
    fun k hk hpk => ?_⟩
  · obtain ⟨k₀, hk₀, _, _, hemail, _⟩ := hback k hk
    rw [hemail]
    exact h.lowered k₀ hk₀
  · obtain ⟨k₀, hk₀, _, _, _, hrole, _⟩ := hback k hk
    rw [hrole]
    exact h.noOwner k₀ hk₀
  · obtain ⟨a₀, ha₀, _, _, _, _, _, hsame⟩ := hback a ha
    obtain ⟨b₀, hb₀, _, _, _, _, _, hsame'⟩ := hback b hb
    obtain ⟨rfl, _⟩ := hsame hpa
    obtain ⟨rfl, _⟩ := hsame' hpb
    exact h.onePending a ha₀ b hb₀ hpa hpb
  · obtain ⟨k₀, hk₀, _, hplace, _⟩ := hback k hk
    rw [hws, hplace]
    exact h.placed k₀ hk₀
  · obtain ⟨k₀, hk₀, _, _, _, _, _, hsame⟩ := hback k hk
    obtain ⟨rfl, hne⟩ := hsame hpk
    exact hmembers k hk₀ hpk hne

theorem ordered_of_same (h : InvitationsOrdered env s) (hinv : t.invitations = s.invitations)
    (husers : t.users = s.users) (hws : t.workspaces = s.workspaces)
    (hmembers : ∀ m ∈ t.members, ∃ m₀ ∈ s.members, m.seatKey = m₀.seatKey) :
    InvitationsOrdered env t := by
  refine ⟨hinv ▸ h.lowered, hinv ▸ h.noOwner, hinv ▸ h.onePending, hinv ▸ hws ▸ h.placed, ?_⟩
  rw [hinv, husers]
  intro inv hmem hpending m hm hws u hu huser
  obtain ⟨m₀, hm₀, hkey⟩ := hmembers m hm
  have hfst : m.workspaceId = m₀.workspaceId := congrArg Prod.fst hkey
  have hsnd : m.userId = m₀.userId := congrArg Prod.snd hkey
  exact h.strangers inv hmem hpending m₀ hm₀ (hfst ▸ hws) u hu (huser.trans hsnd)

theorem invitation?_spec {id : Uuid} (h : s.invitation? id = some inv) :
    inv ∈ s.invitations ∧ inv.id = id := by
  have hid := List.find?_some h
  simp only [decide_eq_true_eq] at hid
  exact ⟨List.mem_of_find?_eq_some h, hid⟩

section Acceptance

variable {user : User} {inv : Invitation}

theorem caller_of_accept (h : AcceptBasis env (s = ·) user.id user inv) : user ∈ s.users := by
  obtain ⟨_, rfl, hfound⟩ := h.caller
  exact List.mem_of_find?_eq_some hfound

theorem invitation_of_accept (h : AcceptBasis env (s = ·) user.id user inv) :
    s.invitation? inv.id = some inv := by
  obtain ⟨_, rfl, hfound⟩ := h.row
  exact hfound

theorem address_of_accept (hs : Consistent env s) (h : AcceptBasis env (s = ·) user.id user inv) :
    env.lower user.email = inv.email := by
  have hmem := (invitation?_spec (invitation_of_accept h)).1
  rw [← h.address]
  exact hs.ordered.lowered inv hmem

theorem no_seat_of_accept (hs : Consistent env s) (h : AcceptBasis env (s = ·) user.id user inv) :
    s.seat? inv.workspaceId user.id = none := by
  cases hseat : s.seat? inv.workspaceId user.id with
  | none => rfl
  | some m =>
    obtain ⟨hmem, hws, huser⟩ := seat?_spec hseat
    have hinv := (invitation?_spec (invitation_of_accept h)).1
    exact absurd (address_of_accept hs h) (hs.ordered.strangers inv hinv h.pending m hmem hws user
      (caller_of_accept h) huser.symm)

theorem collided_eq (hs : Consistent env s) (h : AcceptBasis env (s = ·) user.id user inv)
    (read : Reading) (now : Timestamp) :
    s.collided inv read user.id (s.seat? inv.workspaceId user.id) (s.invitation? inv.id) now =
      (s.recordSeat inv.id user.id read).updateInvitation inv (inv.taken now user.id) := by
  rw [no_seat_of_accept hs h, invitation_of_accept h]
  simp [State.collided, State.reseated, State.retaken, Option.filter, h.pending]

end Acceptance

theorem keyed_of_members (h : Keyed s)
    (hids : (t.members.map (·.id)).Sublist (s.members.map (·.id)))
    (hseats : (t.members.map Member.seatKey).Sublist (s.members.map Member.seatKey))
    (hinv : t.invitations.map (·.id) = s.invitations.map (·.id)) : Keyed t :=
  ⟨h.memberIds.sublist hids, h.seats.sublist hseats, hinv ▸ h.invitationIds⟩

theorem keyed_addMember (h : Keyed s) (hfree : ¬ s.SeatTaken row)
    (hmembers : t.members = s.members ++ [row])
    (hinv : t.invitations.map (·.id) = s.invitations.map (·.id)) : Keyed t := by
  have hapart : ∀ m ∈ s.members, m.id ≠ row.id ∧ m.seatKey ≠ row.seatKey := by
    intro m hm
    refine ⟨fun hid => hfree ⟨m, hm, Or.inl hid⟩, fun hkey => hfree ⟨m, hm, Or.inr ?_⟩⟩
    exact ⟨congrArg Prod.fst hkey, congrArg Prod.snd hkey⟩
  refine ⟨?_, ?_, hinv ▸ h.invitationIds⟩
  · rw [hmembers, List.map_append, List.nodup_append]
    refine ⟨h.memberIds, List.nodup_singleton _, fun a ha b hb => ?_⟩
    obtain ⟨m, hm, rfl⟩ := List.mem_map.mp ha
    obtain rfl := List.mem_singleton.mp hb
    exact (hapart m hm).1
  · rw [hmembers, List.map_append, List.nodup_append]
    refine ⟨h.seats, List.nodup_singleton _, fun a ha b hb => ?_⟩
    obtain ⟨m, hm, rfl⟩ := List.mem_map.mp ha
    obtain rfl := List.mem_singleton.mp hb
    exact (hapart m hm).2

theorem users_of_change (hs : Consistent env s) (h : Change env s r t) :
    t.users = s.users := by
  cases h with
  | patched => exact patched_users _ _
  | accepted hbasis _ _ =>
    rw [no_seat_of_accept hs hbasis]
    rfl
  | collided hbasis =>
    rw [collided_eq hs hbasis]
    rfl
  | _ => rfl

theorem keyed_of_change (hs : Consistent env s) (h : Change env s r t) : Keyed t := by
  have hkeyed := hs.keyed
  cases h with
  | founded _ _ hfree => exact keyed_addMember hkeyed hfree rfl rfl
  | patched =>
    refine keyed_of_members hkeyed ?_ ?_ (by rw [patched_invitations])
    · rw [patched_keys _ _ fun _ => rfl]
    · rw [patched_keys _ _ fun _ => rfl]
  | removed =>
    exact keyed_of_members hkeyed (List.filter_sublist.map _) (List.filter_sublist.map _) rfl
  | @invited _ _ _ _ row _ _ _ _ _ _ _ hfresh =>
    refine ⟨hkeyed.memberIds, hkeyed.seats, ?_⟩
    have hids : (s.addInvitation row).invitations.map (·.id) = s.invitations.map (·.id) ++ [row.id] :=
      List.map_append ..
    rw [hids, List.nodup_append]
    refine ⟨hkeyed.invitationIds, List.nodup_singleton _, fun a ha b hb => ?_⟩
    obtain ⟨inv, hinv, rfl⟩ := List.mem_map.mp ha
    obtain rfl := List.mem_singleton.mp hb
    exact (hfresh inv hinv).1
  | withdrawn =>
    exact keyed_of_members hkeyed (List.Sublist.refl _) (List.Sublist.refl _) (ids_updateInvitation _ _)
  | accepted hbasis _ hfree =>
    have hnone := no_seat_of_accept hs hbasis
    rw [hnone]
    exact keyed_addMember hkeyed (hfree hnone) rfl (ids_updateInvitation _ _)
  | collided hbasis =>
    rw [collided_eq hs hbasis]
    exact keyed_of_members hkeyed (List.Sublist.refl _) (List.Sublist.refl _) (ids_updateInvitation _ _)
  | minted => exact ⟨hkeyed.memberIds, hkeyed.seats, hkeyed.invitationIds⟩

theorem ordered_addInvitation (hs : Consistent env s) {row : Invitation} {email : String}
    {role : InviteRole} (hplace : ∃ w ∈ s.workspaces, w.id = row.workspaceId)
    (hemail : row.email = env.lower email) (hrole : row.role = role.role)
    (hnew : s.memberWithEmail? env row.workspaceId row.email = none)
    (hfresh : ∀ inv ∈ s.invitations, inv.id ≠ row.id ∧
      ¬ (inv.workspaceId = row.workspaceId ∧ inv.email = row.email ∧ inv.status = .pending)) :
    InvitationsOrdered env (s.addInvitation row) := by
  have h := hs.ordered
  have hmem : ∀ k ∈ (s.addInvitation row).invitations, k ∈ s.invitations ∨ k = row := by
    intro k hk
    simpa [State.addInvitation] using hk
  refine ⟨fun k hk => ?_, fun k hk => ?_, fun a ha b hb hpa hpb hws hsame => ?_, fun k hk => ?_,
    fun k hk hpk m hm hws u hu huser => ?_⟩
  · rcases hmem k hk with hk | rfl
    · exact h.lowered k hk
    · rw [hemail, hs.folded.lower_lower]
  · rcases hmem k hk with hk | rfl
    · exact h.noOwner k hk
    · rw [hrole]
      cases role <;> decide
  · rcases hmem a ha with ha' | heqa <;> rcases hmem b hb with hb' | heqb
    · exact h.onePending a ha' b hb' hpa hpb hws hsame
    · subst heqb
      exact absurd ⟨hws, hsame, hpa⟩ (hfresh a ha').2
    · subst heqa
      exact absurd ⟨hws.symm, hsame.symm, hpb⟩ (hfresh b hb').2
    · exact heqa.trans heqb.symm
  · rcases hmem k hk with hk | rfl
    · exact h.placed k hk
    · exact hplace
  · rcases hmem k hk with hk | rfl
    · exact h.strangers k hk hpk m hm hws u hu huser
    · have hnone := List.find?_eq_none.mp hnew m hm
      simp only [decide_eq_true_eq, not_and, not_exists] at hnone
      rw [← hs.folded.sqlLower u hu]
      exact hnone hws u hu huser

theorem ordered_founded (h : InvitationsOrdered env s) {row : Workspace} {seat : Member}
    (hrow : row.id = seat.workspaceId) (hfresh : ∀ w ∈ s.workspaces, w.id ≠ seat.workspaceId) :
    InvitationsOrdered env (s.founded row seat) := by
  refine ⟨h.lowered, h.noOwner, h.onePending, fun k hk => ?_, fun k hk hpk m hm hws u hu huser => ?_⟩
  · obtain ⟨w, hw, hid⟩ := h.placed k hk
    exact ⟨w, List.mem_append_left _ hw, hid⟩
  · rcases List.mem_append.mp hm with hm | hm
    · exact h.strangers k hk hpk m hm hws u hu huser
    · obtain rfl := List.mem_singleton.mp hm
      obtain ⟨w, hw, hid⟩ := h.placed k hk
      exact absurd (hid.trans hws.symm) (hfresh w hw)

theorem ordered_accepted (hs : Consistent env s) {user : User}
    {read : Reading} {now : Timestamp} (hbasis : AcceptBasis env (s = ·) user.id user inv)
    (hws : row.workspaceId = inv.workspaceId) (huser : row.userId = user.id) :
    InvitationsOrdered env (s.accepted inv read none row now) := by
  have hclosed : (inv.taken now row.userId).status ≠ .pending := fun h => by cases h
  refine ordered_of_closed hs.ordered hbasis.pending hclosed rfl rfl
    fun k hk hpk hne m hm hplace u hu hid => ?_
  rcases List.mem_append.mp hm with hm | hm
  · exact hs.ordered.strangers k hk hpk m hm hplace u hu hid
  · obtain rfl := List.mem_singleton.mp hm
    have heq : u = user := List.inj_on_of_nodup_map hs.folded.ids hu (caller_of_accept hbasis)
      (hid.trans huser)
    have hmem := (invitation?_spec (invitation_of_accept hbasis)).1
    subst heq
    intro hsame
    have hone : k = inv := hs.ordered.onePending k hk inv hmem hpk hbasis.pending
      (hplace.symm.trans hws) (hsame.symm.trans (address_of_accept hs hbasis))
    exact hne (congrArg _ hone)

theorem ordered_of_change (hs : Consistent env s) (h : Change env s r t) :
    InvitationsOrdered env t := by
  have hsame := fun m (hm : m ∈ s.members) =>
    (⟨m, hm, rfl⟩ : ∃ m₀ ∈ s.members, m.seatKey = m₀.seatKey)
  cases h with
  | founded hrow hfresh _ => exact ordered_founded hs.ordered hrow hfresh
  | @patched _ _ _ m new =>
    refine ordered_of_same hs.ordered (patched_invitations _ _) (patched_users _ _) ?_ fun k hk => ?_
    · unfold State.patched
      split
      · rfl
      · rfl
    · have hkeys : k.seatKey ∈ (s.patched m new).members.map Member.seatKey := List.mem_map_of_mem hk
      rw [patched_keys m new fun _ => rfl] at hkeys
      obtain ⟨m₀, hm₀, hkey⟩ := List.mem_map.mp hkeys
      exact ⟨m₀, hm₀, hkey.symm⟩
  | removed =>
    exact ordered_of_same hs.ordered rfl rfl rfl fun m hm => hsame m (List.mem_filter.mp hm).1
  | invited _ hplace _ hemail hrole _ hnew hfresh =>
    exact ordered_addInvitation hs hplace hemail hrole hnew hfresh
  | withdrawn hpending =>
    exact ordered_of_closed hs.ordered hpending (fun h => by cases h) rfl rfl fun k hk hpk _ =>
      hs.ordered.strangers k hk hpk
  | accepted hbasis hrow _ =>
    rw [no_seat_of_accept hs hbasis]
    exact ordered_accepted hs hbasis hrow.1 hrow.2.1
  | collided hbasis =>
    rw [collided_eq hs hbasis]
    exact ordered_of_closed hs.ordered hbasis.pending (fun h => by cases h) rfl rfl fun k hk hpk _ =>
      hs.ordered.strangers k hk hpk
  | minted => exact ordered_of_same hs.ordered rfl rfl rfl hsame

theorem consistent_of_change (hs : Consistent env s) (h : Change env s r t) :
    Consistent env t :=
  ⟨keyed_of_change hs h, ordered_of_change hs h, users_of_change hs h ▸ hs.folded⟩

/-- What happens one after the other: a request runs alone, or time passes. -/
inductive Happening
  | request (r : Request)
  | elapse (micros : ℕ)

def perform (env : Env) (s : State) : Happening → State
  | .request r => (r.prog env).alone id s
  | .elapse micros => tick micros s

def after (env : Env) (s : State) (past : List Happening) : State := past.foldl (perform env) s

@[simp] theorem after_append (past later : List Happening) :
    after env s (past ++ later) = after env (after env s past) later := List.foldl_append ..

/-- The rank goes up, or the user gets a seat. -/
def Rises (s t : State) (workspaceId userId : Uuid) : Prop :=
  ∃ rank, HasRank t workspaceId userId rank ∧ ∀ old, HasRank s workspaceId userId old → old < rank

/-- A request of the past issued the invitation, by an active admin or owner of the workspace. -/
def Issued (env : Env) (start : State) (past : List Happening) (inv : Invitation) : Prop :=
  ∃ earlier later userId wanted payload plaintext,
    past = earlier ++
      .request (.createInvitation userId wanted payload inv.id plaintext) :: later ∧
    inv.invitedBy = some userId ∧ ActiveAdmin (after env start earlier) inv.workspaceId userId ∧
    ∀ k ∈ (after env start earlier).invitations, k.id ≠ inv.id

/-- The request accepts a pending, unexpired invitation to the user's own address. -/
def AcceptsOwn (env : Env) (s : State) (r : Request) (inv : Invitation) : Prop :=
  ∃ token memberId user, r = .acceptInvitation r.userId token memberId ∧
    s.user? r.userId = some user ∧ inv ∈ s.invitations ∧ inv.status = .pending ∧
    s.now < inv.expiresAt ∧ env.lower inv.email = env.lower user.email

/-- What a request that follows the past may do to seats. -/
structure SeatRules (env : Env) (start : State) (past : List Happening) (r : Request) : Prop where
  owners : ∀ w ∈ (after env start past).workspaces, ∀ userId,
    (ActiveOwner (after env start past) w.id userId ↔
      ActiveOwner (perform env (after env start past) (.request r)) w.id userId) ∨
    ActiveOwner (after env start past) w.id r.userId
  rises : ∀ workspaceId userId,
    Rises (after env start past) (perform env (after env start past) (.request r))
      workspaceId userId →
    ActiveAdmin (after env start past) workspaceId r.userId ∨
    (userId = r.userId ∧ ∃ inv, inv.workspaceId = workspaceId ∧
      AcceptsOwn env (after env start past) r inv ∧ Issued env start past inv) ∨
    (userId = r.userId ∧ (∀ w ∈ (after env start past).workspaces, w.id ≠ workspaceId) ∧
      ∃ payload memberId, r = .createWorkspace userId payload workspaceId memberId)
  accepts : ∀ userId token memberId, r = .acceptInvitation userId token memberId →
    ∀ workspaceId member old, HasRank (after env start past) workspaceId member old →
    ∃ rank, old ≤ rank ∧
      HasRank (perform env (after env start past) (.request r)) workspaceId member rank

/-- An admin's removal of an active owner, which the last-owner check lets pass, comes from
an active owner. -/
def OwnerRemovedByOwner (s : State) : Request → Prop
  | .removeMember userId _ memberId => ∀ m ∈ s.members, m.id = memberId → m.role = .owner →
    m.status = .active → 1 < s.activeOwnerCount m.workspaceId →
    ActiveAdmin s m.workspaceId userId → ActiveOwner s m.workspaceId userId
  | _ => True

instance (s : State) : (r : Request) → Decidable (OwnerRemovedByOwner s r)
  | .removeMember userId _ memberId => inferInstanceAs (Decidable (∀ m ∈ s.members, m.id = memberId →
      m.role = .owner → m.status = .active → 1 < s.activeOwnerCount m.workspaceId →
      ActiveAdmin s m.workspaceId userId → ActiveOwner s m.workspaceId userId))
  | .createWorkspace .. | .patchMember .. | .createInvitation .. | .revokeInvitation ..
  | .acceptInvitation .. | .createToken .. => .isTrue trivial

/-- What is asked of a step of a run. -/
def Guarded : Happening → State → Prop
  | .request r, s => OwnerRemovedByOwner s r
  | .elapse _, _ => True

instance : (h : Happening) → (s : State) → Decidable (Guarded h s)
  | .request r, s => inferInstanceAs (Decidable (OwnerRemovedByOwner s r))
  | .elapse _, _ => .isTrue trivial

/-- One request after the other, as a machine. -/
def serial (env : Env) (h : Happening) (s : State) : Option State := some (perform env s h)

theorem guarded_of_meets {past later : List Happening} {h : Happening}
    (hmeets : Machine.Meets (serial env) Guarded start (past ++ h :: later)) :
    Guarded h (after env start past) := by
  induction past generalizing start with
  | nil => exact hmeets.1
  | cons first past ih => exact ih (hmeets.2 _ rfl)

/-- Where a run starts: seats and workspaces in order, and no invitation yet. -/
structure Start (env : Env) (s : State) : Prop where
  keyed : Keyed s
  folded : Folded env s.users
  invitations : s.invitations = []

theorem Start.consistent (h : Start env s) : Consistent env s := by
  have hnone : ∀ inv, inv ∉ s.invitations := by
    rw [h.invitations]
    exact fun _ => List.not_mem_nil
  exact ⟨h.keyed, ⟨fun k hk => absurd hk (hnone k), fun k hk => absurd hk (hnone k),
    fun a ha => absurd ha (hnone a), fun k hk => absurd hk (hnone k),
    fun k hk => absurd hk (hnone k)⟩, h.folded⟩

theorem consistent_perform (hs : Consistent env s) (h : Happening) :
    Consistent env (perform env s h) := by
  cases h with
  | request r =>
    rcases change_of_request hs.keyed r with heq | hchange
    · have hsame : perform env s (.request r) = s := heq
      exact hsame.symm ▸ hs
    · exact consistent_of_change hs hchange
  | elapse micros => exact ⟨⟨hs.keyed.memberIds, hs.keyed.seats, hs.keyed.invitationIds⟩,
      ⟨hs.ordered.lowered, hs.ordered.noOwner, hs.ordered.onePending, hs.ordered.placed,
        hs.ordered.strangers⟩, hs.folded⟩

theorem consistent_after (hs : Consistent env s) (past : List Happening) :
    Consistent env (after env s past) := by
  induction past generalizing s with
  | nil => exact hs
  | cons h past ih => exact ih (consistent_perform hs h)

theorem Issued.append {past later : List Happening}
    (h : Issued env start past inv) : Issued env start (past ++ later) inv := by
  obtain ⟨earlier, rest, userId, wanted, payload, plaintext, rfl, hissued⟩ := h
  exact ⟨earlier, rest ++ later, userId, wanted, payload, plaintext, by simp, hissued⟩

theorem Issued.congr {past : List Happening} {a b : Invitation}
    (h : Issued env start past a) (hid : b.id = a.id) (hws : b.workspaceId = a.workspaceId)
    (hby : b.invitedBy = a.invitedBy) : Issued env start past b := by
  obtain ⟨earlier, rest, userId, wanted, payload, plaintext, hpast, hissuer, hadmin, hfresh⟩ := h
  refine ⟨earlier, rest, userId, wanted, payload, plaintext, hid.symm ▸ hpast, hby.trans hissuer,
    hws.symm ▸ hadmin, fun k hk => hid.symm ▸ hfresh k hk⟩

theorem invitation_of_change (hs : Consistent env s) (h : Change env s r t)
    (hinv : inv ∈ t.invitations) :
    (∃ k ∈ s.invitations, inv.id = k.id ∧ inv.workspaceId = k.workspaceId ∧
      inv.invitedBy = k.invitedBy) ∨
    (∃ userId wanted payload plaintext,
      r = .createInvitation userId wanted payload inv.id plaintext ∧ inv.invitedBy = some userId ∧
      ActiveAdmin s inv.workspaceId userId ∧ ∀ k ∈ s.invitations, k.id ≠ inv.id) := by
  have hkept : inv ∈ s.invitations → ∃ k ∈ s.invitations, inv.id = k.id ∧
      inv.workspaceId = k.workspaceId ∧ inv.invitedBy = k.invitedBy :=
    fun hmem => ⟨inv, hmem, rfl, rfl, rfl⟩
  have hclosed : ∀ (new : Invitation) {old : Invitation}, old.status = .pending →
      new.status ≠ .pending → inv ∈ (s.updateInvitation old new).invitations →
      ∃ k ∈ s.invitations, inv.id = k.id ∧ inv.workspaceId = k.workspaceId ∧
        inv.invitedBy = k.invitedBy := by
    intro new old hold hnew hmem
    obtain ⟨k, hk, hid, hws, _, _, hby, _⟩ := mem_updateInvitation hold hnew hmem
    exact ⟨k, hk, hid, hws, hby⟩
  cases h with
  | patched => exact Or.inl (hkept (patched_invitations _ _ ▸ hinv))
  | invited hadmin hplace hissuer hemail hrole hstatus hnew hfresh =>
    rcases List.mem_append.mp hinv with hinv | hinv
    · exact Or.inl (hkept hinv)
    · obtain rfl := List.mem_singleton.mp hinv
      exact Or.inr ⟨_, _, _, _, rfl, hissuer, hadmin, fun k hk => (hfresh k hk).1⟩
  | withdrawn hpending => exact Or.inl (hclosed _ hpending (fun h => by cases h) hinv)
  | accepted hbasis hrow hfree =>
    rw [no_seat_of_accept hs hbasis] at hinv
    exact Or.inl (hclosed (Invitation.taken _ _ _) hbasis.pending (fun h => by cases h) hinv)
  | collided hbasis =>
    rw [collided_eq hs hbasis] at hinv
    exact Or.inl (hclosed (Invitation.taken _ _ _) hbasis.pending (fun h => by cases h) hinv)
  | _ => exact Or.inl (hkept hinv)

theorem issued_after (hstart : Start env start) (past : List Happening)
    (hinv : inv ∈ (after env start past).invitations) :
    Issued env start past inv := by
  induction past using List.reverseRecOn generalizing inv with
  | nil =>
    have hnone : start.invitations = [] := hstart.invitations
    exact absurd (hnone ▸ hinv) List.not_mem_nil
  | append_singleton past h ih =>
    have hs := consistent_after hstart.consistent past
    rw [after_append] at hinv
    cases h with
    | elapse micros => exact (ih hinv).append
    | request r =>
      rcases change_of_request hs.keyed r with heq | hchange
      · have hsame : after env (after env start past) [.request r] = after env start past := heq
        exact (ih (hsame ▸ hinv)).append
      · rcases invitation_of_change hs hchange hinv with ⟨k, hk, hid, hws, hby⟩ | hissued
        · exact ((ih hk).congr hid hws hby).append
        · obtain ⟨userId, wanted, payload, plaintext, rfl, hissuer, hadmin, hfresh⟩ := hissued
          exact ⟨past, [], userId, wanted, payload, plaintext, rfl, hissuer, hadmin, hfresh⟩

theorem not_rises (h : ∀ workspaceId userId rank, HasRank t workspaceId userId rank →
    HasRank s workspaceId userId rank) :
    ¬ Rises s t workspaceId userId := by
  intro ⟨rank, hrank, hold⟩
  exact Nat.lt_irrefl rank (hold rank (h _ _ _ hrank))

theorem hasRank_added (h : t.members = s.members ++ [row])
    (hrank : HasRank t workspaceId userId rank) :
    HasRank s workspaceId userId rank ∨
      (row.workspaceId = workspaceId ∧ row.userId = userId ∧ row.role.rank = rank) := by
  obtain ⟨m, hm, hws, huser, hactive, hr⟩ := hrank
  rw [h] at hm
  rcases List.mem_append.mp hm with hm | hm
  · exact Or.inl ⟨m, hm, hws, huser, hactive, hr⟩
  · obtain rfl := List.mem_singleton.mp hm
    exact Or.inr ⟨hws, huser, hr⟩

theorem hasRank_of_added (h : t.members = s.members ++ [row])
    (hrank : HasRank s workspaceId userId rank) :
    HasRank t workspaceId userId rank := by
  obtain ⟨m, hm, hrest⟩ := hrank
  exact ⟨m, h ▸ List.mem_append_left _ hm, hrest⟩

theorem role_eq_owner_of_rank {r : Role} (h : r.rank = Role.owner.rank) : r = .owner := by
  cases r with
  | owner => rfl
  | _ => cases h

theorem activeOwner_seat (hs : Keyed s) (hm : m ∈ s.members) :
    ActiveOwner s m.workspaceId m.userId ↔ m.role = .owner ∧ m.status = .active := by
  constructor
  · intro ⟨k, hk, hws, huser, hactive, hrank⟩
    have heq : k = m := hs.eq_of_seat hk hm hws huser
    subst heq
    exact ⟨role_eq_owner_of_rank hrank, hactive⟩
  · intro ⟨hrole, hactive⟩
    exact ⟨m, hm, rfl, rfl, hactive, by rw [hrole]⟩

theorem untouched_role {payload : MemberPatch}
    (h : ¬ payload.role = some (some .owner) ∧ ¬ m.role = .owner) :
    (payload.role.getD (some m.role)).getD m.role ≠ .owner := by
  intro hrole
  cases hfield : payload.role with
  | none => exact h.2 (by simpa [hfield] using hrole)
  | some value =>
    cases value with
    | none => exact h.2 (by simpa [hfield] using hrole)
    | some role => exact h.1 (hfield.trans (by simpa [hfield] using hrole))

theorem owners_of_change (hs : Consistent env s) (h : Change env s r t)
    (hremoval : OwnerRemovedByOwner s r) {w : Workspace} (hw : w ∈ s.workspaces) (userId : Uuid) :
    (ActiveOwner s w.id userId ↔ ActiveOwner t w.id userId) ∨ ActiveOwner s w.id r.userId := by
  have hkeyed := hs.keyed
  cases h with
  | founded hrow hfresh hfree =>
    refine Or.inl ⟨hasRank_of_added rfl, fun howner => ?_⟩
    rcases hasRank_added rfl howner with howner | ⟨hws, _⟩
    · exact howner
    · exact absurd hws.symm (hfresh w hw)
  | @patched caller wanted payload m new hm hadmin howner hnew =>
    by_cases hseat : (w.id, userId) = m.seatKey
    · obtain ⟨hws, huser⟩ := Prod.mk.inj hseat
      by_cases htouched : payload.role = some (some .owner) ∨ m.role = .owner
      · exact Or.inr (hws ▸ howner htouched)
      · rw [not_or] at htouched
        left
        rw [hws, huser]
        refine iff_of_false (fun h => htouched.2 ((activeOwner_seat hkeyed hm).mp h).1) ?_
        intro ⟨k, hk, hkws, hkuser, _, hrank⟩
        rcases (mem_patched hkeyed hm).mp hk with ⟨hk, hne⟩ | rfl
        · exact hne (congrArg _ (hkeyed.eq_of_seat hk hm hkws hkuser))
        · have hrole : new.role = .owner := by
            rw [stored_loaded] at hrank
            exact role_eq_owner_of_rank hrank
          exact untouched_role htouched (role_of_apply hnew ▸ hrole)
    · exact Or.inl (hasRank_patched_of_ne hkeyed hm hseat).symm
  | @removed caller place wanted m ids now events hm hadmin hmany =>
    by_cases hseat : (w.id, userId) = m.seatKey
    · obtain ⟨hws, huser⟩ := Prod.mk.inj hseat
      by_cases hended : m.role = .owner ∧ m.status = .active
      · right
        rw [hws]
        exact hremoval m hm rfl hended.1 hended.2 (hmany hended.1) hadmin
      · left
        rw [hws, huser]
        refine iff_of_false (fun h => hended ((activeOwner_seat hkeyed hm).mp h)) ?_
        intro ⟨k, hk, hkws, hkuser, _⟩
        obtain ⟨hk, hne⟩ := List.mem_filter.mp hk
        have heq : k = m := hkeyed.eq_of_seat hk hm hkws hkuser
        simp [heq] at hne
    · exact Or.inl (hasRank_removed_of_ne hkeyed hm hseat).symm
  | @accepted user token inv row read now hbasis hrow hfree =>
    rw [no_seat_of_accept hs hbasis]
    refine Or.inl ⟨hasRank_of_added rfl, fun howner => ?_⟩
    rcases hasRank_added rfl howner with howner | ⟨_, _, hrank⟩
    · exact howner
    · have hmem := (invitation?_spec (invitation_of_accept hbasis)).1
      exact absurd (hrow.2.2.1.symm.trans (role_eq_owner_of_rank hrank)) (hs.ordered.noOwner inv hmem)
  | collided hbasis =>
    rw [collided_eq hs hbasis]
    exact Or.inl Iff.rfl
  | _ => exact Or.inl Iff.rfl

theorem rises_of_change (hs : Consistent env s) (h : Change env s r t)
    (hrises : Rises s t workspaceId userId) :
    ActiveAdmin s workspaceId r.userId ∨
    (userId = r.userId ∧ ∃ inv, inv.workspaceId = workspaceId ∧ AcceptsOwn env s r inv) ∨
    (userId = r.userId ∧ (∀ w ∈ s.workspaces, w.id ≠ workspaceId) ∧
      ∃ payload memberId, r = .createWorkspace userId payload workspaceId memberId) := by
  have hkeyed := hs.keyed
  obtain ⟨rank, hrank, hold⟩ := hrises
  have hnew : ¬ HasRank s workspaceId userId rank := fun h => Nat.lt_irrefl rank (hold rank h)
  cases h with
  | founded hrow hfresh hfree =>
    rcases hasRank_added rfl hrank with h | ⟨rfl, rfl, _⟩
    · exact absurd h hnew
    · exact Or.inr (Or.inr ⟨rfl, hfresh, _, _, rfl⟩)
  | @patched caller wanted payload m new hm hadmin howner happly =>
    by_cases hseat : (workspaceId, userId) = m.seatKey
    · obtain ⟨hws, _⟩ := Prod.mk.inj hseat
      exact Or.inl (hws ▸ hadmin)
    · exact absurd ((hasRank_patched_of_ne hkeyed hm hseat).mp hrank) hnew
  | removed =>
    obtain ⟨k, hk, hrest⟩ := hrank
    exact absurd ⟨k, (List.mem_filter.mp hk).1, hrest⟩ hnew
  | @accepted user token inv row read now hbasis hrow hfree =>
    rw [no_seat_of_accept hs hbasis] at hrank
    rcases hasRank_added rfl hrank with h | ⟨hws, huser, _⟩
    · exact absurd h hnew
    · refine Or.inr (Or.inl ⟨huser.symm.trans hrow.2.1, inv, hrow.1.symm.trans hws, ?_⟩)
      obtain ⟨_, rfl, hcaller⟩ := hbasis.caller
      obtain ⟨_, rfl, hunexpired⟩ := hbasis.unexpired
      exact ⟨token, row.id, user, rfl, hcaller, (invitation?_spec (invitation_of_accept hbasis)).1,
        hbasis.pending, hunexpired, hbasis.address⟩
  | collided hbasis =>
    rw [collided_eq hs hbasis] at hrank
    exact absurd hrank hnew
  | _ => exact absurd hrank hnew

theorem accepts_of_change (hs : Consistent env s) {userId memberId : Uuid}
    {token : Option (Uuid × String)} (h : Change env s (.acceptInvitation userId token memberId) t)
    {workspaceId member old : ℕ} (hold : HasRank s workspaceId member old) :
    HasRank t workspaceId member old := by
  cases h with
  | accepted hbasis _ _ =>
    rw [no_seat_of_accept hs hbasis]
    exact hasRank_of_added rfl hold
  | collided hbasis =>
    rw [collided_eq hs hbasis]
    exact hold

/-- Only owners change who owns, and nobody rises but through an admin, an invitation of
their own or a workspace they create, as long as no admin removes an owner. -/
theorem seat_rules_of_run {start : State} (hstart : Start env start)
    {past later : List Happening} {r : Request}
    (hmeets : Machine.Meets (serial env) Guarded start (past ++ .request r :: later)) :
    SeatRules env start past r := by
  have hs := consistent_after hstart.consistent past
  have hremoval : OwnerRemovedByOwner (after env start past) r := guarded_of_meets hmeets
  rcases @change_of_request env _ hs.keyed r with heq | hchange
  · have hsame : perform env (after env start past) (.request r) = after env start past := heq
    refine ⟨fun _ _ _ => ?_, fun _ _ hrises => ?_, fun _ _ _ _ _ _ old hold => ?_⟩
    · rw [hsame]
      exact Or.inl Iff.rfl
    · rw [hsame] at hrises
      exact absurd hrises (not_rises fun _ _ _ h => h)
    · rw [hsame]
      exact ⟨old, le_rfl, hold⟩
  · refine ⟨fun w hw userId => owners_of_change hs hchange hremoval hw userId,
      fun workspaceId userId hrises => ?_, fun userId token memberId hr _ _ old hold => ?_⟩
    · rcases rises_of_change hs hchange hrises with h | ⟨huser, inv, hws, haccepts⟩ | h
      · exact Or.inl h
      · have hmem : inv ∈ (after env start past).invitations := by
          obtain ⟨_, _, _, _, _, hmem, _⟩ := haccepts
          exact hmem
        exact Or.inr (Or.inl ⟨huser, inv, hws, haccepts, issued_after hstart past hmem⟩)
      · exact Or.inr (Or.inr h)
    · subst hr
      exact ⟨old, le_rfl, accepts_of_change hs hchange hold⟩

def sampleEnv : Env where
  lower := fun text => text.toLower
  sqlLower := fun text => text.toLower
  hmac := fun secret => "hmac of " ++ secret
  invitationTtlDays := 14

def sampleStart : State where
  users := [⟨1, "ann@example.com"⟩, ⟨2, "Bob@example.com"⟩, ⟨3, "cleo@example.com"⟩]
  workspaces := []
  members := []
  invitations := []
  tokens := []
  now := 0
  history := []

/-- Ann founds a workspace, where Bob becomes an admin and Cleo a second owner. -/
def samplePast : List Happening :=
  [.request (.createWorkspace 1 ⟨"Lab", "EUR"⟩ 10 100),
    .request (.createInvitation 1 none ⟨"bob@example.com", .admin⟩ 20 "first"),
    .request (.createInvitation 1 none ⟨"cleo@example.com", .member⟩ 21 "second"),
    .request (.acceptInvitation 2 (some (20, "first")) 101),
    .request (.acceptInvitation 3 (some (21, "second")) 102),
    .request (.patchMember 1 none 102 ⟨some (some .owner), none⟩)]

theorem char_toLower_toLower (c : Char) : c.toLower.toLower = c.toLower := by
  simp only [Char.toLower]
  split
  next h =>
    rw [dif_neg]
    obtain ⟨hfrom, hto⟩ := h
    simp only [ge_iff_le, UInt32.le_iff_toNat_le, UInt32.toNat_add] at hfrom hto ⊢
    simp at hfrom hto ⊢
    omega
  next => rfl

theorem toLower_toLower (text : String) : text.toLower.toLower = text.toLower := by
  have hchar : Char.toLower ∘ Char.toLower = Char.toLower := funext char_toLower_toLower
  unfold String.toLower
  rw [String.map_map, hchar]

theorem sampleStart_start : Start sampleEnv sampleStart where
  keyed := ⟨List.nodup_nil, List.nodup_nil, List.nodup_nil⟩
  folded := ⟨by decide, toLower_toLower, fun _ _ => rfl⟩
  invitations := rfl

/-- What the removals below come to, with the past evaluated once. -/
theorem samplePast_removals :
    (∃ w ∈ (after sampleEnv sampleStart samplePast).workspaces, w.id = 10) ∧
    ¬ ((ActiveOwner (after sampleEnv sampleStart samplePast) 10 3 ↔
        ActiveOwner (perform sampleEnv (after sampleEnv sampleStart samplePast)
          (.request (.removeMember 2 none 102))) 10 3) ∨
      ActiveOwner (after sampleEnv sampleStart samplePast) 10 2) ∧
    Machine.Meets (serial sampleEnv) Guarded sampleStart
      (samplePast ++ [.request (.removeMember 1 none 102)]) ∧
    ¬ ActiveOwner (perform sampleEnv (after sampleEnv sampleStart samplePast)
      (.request (.removeMember 1 none 102))) 10 3 := by
  decide +kernel

/-- Bob, an admin, removes Cleo, an owner: the last-owner check lets it pass. -/
theorem owner_removed_by_admin :
    Start sampleEnv sampleStart ∧
    ¬ SeatRules sampleEnv sampleStart samplePast (.removeMember 2 none 102) := by
  refine ⟨sampleStart_start, fun rules => ?_⟩
  obtain ⟨⟨w, hw, hid⟩, hchanged, -⟩ := samplePast_removals
  have hrule := rules.owners w hw 3
  rw [hid] at hrule
  exact hchanged hrule

/-- Ann, an owner, may remove Cleo. -/
theorem seat_rules_sample :
    SeatRules sampleEnv sampleStart samplePast (.removeMember 1 none 102) ∧
    ¬ ActiveOwner (perform sampleEnv (after sampleEnv sampleStart samplePast)
      (.request (.removeMember 1 none 102))) 10 3 :=
  have hmeets := samplePast_removals.2.2.1
  ⟨@seat_rules_of_run sampleEnv sampleStart sampleStart_start samplePast []
    (.removeMember 1 none 102) hmeets, samplePast_removals.2.2.2⟩

end StockManager.Tenancy
