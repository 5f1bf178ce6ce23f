import StockManager.Model.TenancyRoutes

/-! # What the routes commit

For each route: what it has read when it commits, and what the commit writes. -/

namespace StockManager.Tenancy

open Sessions

variable {ι : Type} {P : Protocol ι State Lock Mark} {i : ι} {held : List Lock} {s : State}
variable {userId memberId : Uuid} {wanted : Option Uuid} {pending : State → State} {t : State}
  {Q : Post State Lock Unit}

theorem wp_getCurrentUser {Q : Post State Lock User}
    (h : ∀ t, Later P i held s t → ∀ user, t.user? userId = some user → Q user id held t) :
    wp P i (getCurrentUser userId) Q id held s := by
  simp only [getCurrentUser, wp_bind, wp_ask, wp_orRaise]
  exact h

theorem wp_getCurrentWorkspace {user : User} {Q : Post State Lock (Workspace × List Member)}
    (h : ∀ t, Later P i held s t → ∀ u, Later P i held t u → ∀ v, Later P i held u v → ∀ ws,
      ws ∈ u.workspaces ∨ ws ∈ v.workspaces → Q (ws, t.activeSeats user.id) id held v) :
    wp P i (getCurrentWorkspace user wanted) Q id held s := by
  simp only [getCurrentWorkspace, wp_bind, wp_ask, wp_check, wp_orRaise, wp_pure]
  intro t ht _ u hu v hv ws hws
  refine h t ht u hu v hv ws ?_
  rw [Option.or_eq_some_iff] at hws
  rcases hws with hchosen | ⟨_, hfallback⟩
  · obtain ⟨_, _, hfound⟩ := Option.bind_eq_some_iff.mp hchosen
    exact Or.inl (List.mem_of_find?_eq_some hfound)
  · obtain ⟨_, _, hfound⟩ := Option.bind_eq_some_iff.mp hfallback
    exact Or.inr (List.mem_of_find?_eq_some hfound)

/-- The caller's seat as the role check finds it: active, with a role that the session
has loaded or now loads. -/
structure Admitted (loaded : List Member) (user : User) (ws : Workspace) (m : Member)
    (s : State) : Prop where
  mem : m ∈ s.members
  workspace : m.workspaceId = ws.id
  user : m.userId = user.id
  active : m.status = .active
  admin : Role.admin.rank ≤ (identity loaded m).role.rank

/-! ### What a commit rests on

`Seen t`: the session may have seen the state `t` on its way. -/

section Bases

variable (Seen : State → Prop)

/-- The caller, the workspace and the memberships the dependencies settle. -/
structure AdminBasis (userId : Uuid) (user : User) (ws : Workspace) (loaded : List Member) :
    Prop where
  caller : ∃ t, Seen t ∧ t.user? userId = some user
  memberships : ∃ t, Seen t ∧ loaded = t.activeSeats user.id
  workspace : ∃ t, Seen t ∧ ws ∈ t.workspaces
  seat : ∃ t, Seen t ∧ ∃ m, Admitted loaded user ws m t

def LoadedMember (ws : Workspace) (loaded : List Member) (memberId : Uuid) (m : Member) : Prop :=
  ∃ t, Seen t ∧ ∃ row, t.member? ws.id memberId = some row ∧ m = identity loaded row

def OwnersCounted (ending : Prop) (workspaceId : Uuid) (counted : Option ℕ) : Prop :=
  (ending → ∃ t, Seen t ∧ 1 < t.activeOwnerCount workspaceId ∧
    counted = some (t.activeOwnerCount workspaceId)) ∧ (¬ ending → counted = none)

def OwnerCalls (loaded : List Member) (user : User) (ws : Workspace) : Prop :=
  ∃ t, Seen t ∧ ∃ mine, t.seat? ws.id user.id = some mine ∧ (identity loaded mine).role = .owner

end Bases

section Parts

variable {t : State}

theorem wp_adminDependencies
    {Q : Post State Lock (User × Workspace × List Member)} (ht : Sees P i s t)
    (h : ∀ user ws loaded, AdminBasis (Sees P i s) userId user ws loaded →
      ∀ u, Sees P i s u → Q (user, ws, loaded) id held u) :
    wp P i (adminDependencies userId wanted) Q id held t := by
  unfold adminDependencies
  rw [wp_bind]
  refine wp_getCurrentUser fun t₁ h₁ user huser => ?_
  rw [wp_bind]
  refine wp_getCurrentWorkspace fun t₂ h₂ t₃ h₃ t₄ h₄ ws hws => ?_
  simp only [requireRole, membershipRole, wp_bind, wp_ask, wp_check, wp_pure]
  intro v hv hrank
  have hseen₁ : Sees P i s t₁ := ht.later h₁
  have hseen₂ : Sees P i s t₂ := hseen₁.later h₂
  have hseen₃ : Sees P i s t₃ := hseen₂.later h₃
  have hseen₄ : Sees P i s t₄ := hseen₃.later h₄
  have hseen : Sees P i s v := hseen₄.later hv
  have hplace : ∃ t, Sees P i s t ∧ ws ∈ t.workspaces := by
    rcases hws with hws | hws
    · exact ⟨t₃, hseen₃, hws⟩
    · exact ⟨t₄, hseen₄, hws⟩
  cases hseat : v.activeSeat? ws.id user.id with
  | none =>
    simp only [id, hseat] at hrank
    exact absurd hrank (by decide)
  | some m =>
    simp only [id, hseat] at hrank
    have hfound := List.find?_some hseat
    simp only [decide_eq_true_eq] at hfound
    have hadmitted : Admitted (t₂.activeSeats user.id) user ws m v :=
      ⟨List.mem_of_find?_eq_some hseat, hfound.1, hfound.2.1, hfound.2.2, hrank⟩
    exact h user ws _ ⟨⟨t₁, hseen₁, huser⟩, ⟨t₂, hseen₂, rfl⟩, hplace, v, hseen, m, hadmitted⟩ v hseen

theorem wp_loadMember {ws : Workspace} {loaded : List Member}
    {Q : Post State Lock Member} (ht : Sees P i s t)
    (h : ∀ m, LoadedMember (Sees P i s) ws loaded memberId m →
      ∀ u, Sees P i s u → Q m id held u) :
    wp P i (loadMember loaded ws memberId) Q id held t := by
  simp only [loadMember, wp_bind, wp_ask, wp_orRaise]
  intro u hu m hm
  obtain ⟨row, hrow, rfl⟩ := Option.map_eq_some_iff.mp hm
  exact h _ ⟨u, ht.later hu, row, hrow, rfl⟩ u (ht.later hu)

theorem wp_lastOwnerCheck {ending : Prop} [Decidable ending] {workspaceId : Uuid} {message : String}
    {Q : Post State Lock (Option ℕ)} (ht : Sees P i s t)
    (h : ∀ counted, OwnersCounted (Sees P i s) ending workspaceId counted →
      ∀ u, Sees P i s u → Q counted id held u) :
    wp P i (lastOwnerCheck ending workspaceId message) Q id held t := by
  unfold lastOwnerCheck
  split
  next hending =>
    simp only [wp_bind, wp_ask, wp_check, wp_pure]
    intro u hu hmany
    have hseen : Sees P i s u := ht.later hu
    exact h _ ⟨fun _ => ⟨u, hseen, hmany, rfl⟩, fun hnot => absurd hending hnot⟩ u hseen
  next hending => exact h none ⟨fun hyes => absurd hyes hending, fun _ => rfl⟩ t ht

theorem wp_ownerRoleCheck {touched : Prop} [Decidable touched] {loaded : List Member} {user : User}
    {ws : Workspace} (ht : Sees P i s t)
    (h : (touched → OwnerCalls (Sees P i s) loaded user ws) →
      ∀ u, Sees P i s u → Q () id held u) :
    wp P i (ownerRoleCheck touched loaded user ws) Q id held t := by
  unfold ownerRoleCheck
  split
  next htouched =>
    simp only [wp_bind, wp_ask, wp_check]
    intro u hu howner
    have hseen : Sees P i s u := ht.later hu
    refine h (fun _ => ?_) u hseen
    cases hseat : u.seat? ws.id user.id with
    | none => simp [hseat] at howner
    | some mine => exact ⟨u, hseen, mine, hseat, by simpa [hseat] using howner⟩
  next htouched => exact h (fun hyes => absurd hyes htouched) t ht

end Parts

def State.patched (s : State) (loaded new : Member) : State :=
  if new = loaded then s else s.updateMember loaded new

theorem patched_self (s : State) (m : Member) : s.patched m m = s := if_pos rfl

theorem patched_of_ne (s : State) {loaded new : Member} (h : new ≠ loaded) :
    s.patched loaded new = s.updateMember loaded new := if_neg h

theorem wp_flushMember {loaded new : Member} (ht : Sees P i s t)
    (h : ∀ more, held ⊆ more → (new ≠ loaded → .seat loaded.workspaceId loaded.userId ∈ more) →
      ∀ u, Sees P i s u → Q () (fun s => (pending s).patched loaded new) more u) :
    wp P i (flushMember loaded new) Q pending held t := by
  unfold flushMember
  split
  next heq =>
    subst heq
    have hq := h held (List.Subset.refl _) (fun hne => absurd rfl hne) t ht
    simp only [patched_self] at hq
    exact hq
  next hne =>
    simp only [wp_bind, wp_take, wp_ask, wp_check, wp_put]
    intro u hu v hv _
    have hq := h _ (List.subset_cons_self _ _) (fun _ => List.mem_cons_self ..) v
      ((ht.later hu).later hv)
    simp only [patched_of_ne _ hne] at hq
    exact hq

theorem wp_flushInvitation {loaded new : Invitation}
    (h : ∀ more, held ⊆ more → .invitation loaded.id ∈ more →
      .pendingInvitation loaded.workspaceId loaded.email ∈ more →
      ∀ t, Under P i held s t → Q () (fun s => (pending s).updateInvitation loaded new) more t) :
    wp P i (flushInvitation loaded new) Q pending held s := by
  simp only [flushInvitation, wp_bind, wp_take, wp_ask, wp_check, wp_put]
  intro u hu v hv w hw _
  have hsub : held ⊆ .pendingInvitation loaded.workspaceId loaded.email ::
      .invitation loaded.id :: held :=
    fun l hl => List.mem_cons_of_mem _ (List.mem_cons_of_mem _ hl)
  refine h _ hsub ?_ (List.mem_cons_self ..) w ?_
  · exact List.mem_cons_of_mem _ (List.mem_cons_self ..)
  · exact ((Under.refl.later (List.Subset.refl _) hu).later (List.subset_cons_self ..) hv).later
      hsub hw

theorem wp_patchMember {payload : MemberPatch}
    (h : ∀ user ws loaded m new counted, AdminBasis (Sees P i s) userId user ws loaded →
      LoadedMember (Sees P i s) ws loaded memberId m →
      (payload.role = some (some .owner) ∨ m.role = .owner →
        OwnerCalls (Sees P i s) loaded user ws) →
      OwnersCounted (Sees P i s) (m.role = .owner ∧ payload.demotes) ws.id counted →
      payload.apply m = some new →
      ∀ more, (new ≠ m → .seat m.workspaceId m.userId ∈ more) →
      ∀ t, Sees P i s t → P.inv t → P.met (.patched m payload counted) t →
        Keeps P i more t (t.patched m new)) :
    wp P i (patchMember userId wanted memberId payload) (fun _ _ _ _ => True) id [] s := by
  unfold patchMember
  rw [wp_bind]
  refine wp_adminDependencies Sees.refl fun user ws loaded hadmin t₁ h₁ => ?_
  rw [wp_bind]
  refine wp_loadMember h₁ fun m hm t₂ h₂ => ?_
  rw [wp_bind]
  refine wp_ownerRoleCheck h₂ fun howner t₃ h₃ => ?_
  rw [wp_bind]
  refine wp_lastOwnerCheck h₃ fun counted hcounted t₄ h₄ => ?_
  rw [wp_bind, wp_orRaise]
  intro new hnew
  rw [wp_bind]
  refine wp_flushMember h₄ fun more _ hseat t₅ h₅ => ?_
  rw [wp_commitAs]
  intro t ht hmet
  exact ⟨h user ws loaded m new counted hadmin hm howner hcounted hnew more hseat t (h₅.later ht)
    ht.2 hmet, trivial⟩

def State.removed (s : State) (workspaceId : Uuid) (m : Member) (ids : List Uuid)
    (now : Timestamp) (events : ℕ) : State :=
  ((s.revokeTokens ids now).deleteMember m.id).record (.memberRemoved workspaceId m.userId events)

theorem wp_removeMember
    (h : ∀ user ws loaded m counted now, AdminBasis (Sees P i s) userId user ws loaded →
      LoadedMember (Sees P i s) ws loaded memberId m → m.userId ≠ user.id →
      OwnersCounted (Sees P i s) (m.role = .owner) ws.id counted →
      ∀ r, Sees P i s r → P.inv r → ∀ ids, ids = (r.liveTokens ws.id m.userId).map (·.id) →
      ∀ more, (∀ id ∈ ids, .token id ∈ more) → .seat m.workspaceId m.userId ∈ more →
      ∀ t, Sees P i r t → P.inv t → P.met (.removed m counted) t →
        Keeps P i more t (t.removed ws.id m ids now r.history.length)) :
    wp P i (removeMember userId wanted memberId) (fun _ _ _ _ => True) id [] s := by
  unfold removeMember
  rw [wp_bind]
  refine wp_adminDependencies Sees.refl fun user ws loaded hadmin t₁ h₁ => ?_
  rw [wp_bind]
  refine wp_loadMember h₁ fun m hm t₂ h₂ => ?_
  rw [wp_bind, wp_check]
  intro hother
  rw [wp_bind]
  refine wp_lastOwnerCheck h₂ fun counted hcounted t₃ h₃ => ?_
  simp only [revokeAllForUser, wp_bind, wp_ask, wp_put, wp_pure, wp_take, wp_commitAs]
  intro t₄ h₄ t₅ h₅
  have hseen : Sees P i s t₅ := (h₃.later h₄).later h₅
  refine wp_takeAll Sees.refl fun more t₆ _ htokens h₆ t₇ h₇ t ht hmet => ?_
  refine ⟨h user ws loaded m counted _ hadmin hm hother hcounted t₅ hseen h₅.2 _ rfl _
    (fun id hid => ?_) (List.mem_cons_self ..) t ((h₆.later h₇).later ht) ht.2 hmet, trivial⟩
  exact List.mem_cons_of_mem _ (htokens (List.mem_map_of_mem hid))

def State.founded (s : State) (row : Workspace) (seat : Member) : State :=
  (s.addWorkspace row).addMember seat

def State.SeatTaken (s : State) (row : Member) : Prop :=
  ∃ m ∈ s.members, m.id = row.id ∨ (m.workspaceId = row.workspaceId ∧ m.userId = row.userId)

theorem wp_insertMember {row : Member} {Q : Post State Lock Bool} (ht : Sees P i s t)
    (hfree : ∀ u, Sees P i s u → ¬ (pending u).SeatTaken row →
      Q true (fun s => (pending s).addMember row)
        (.seat row.workspaceId row.userId :: .memberKey row.id :: held) u)
    (htaken : ∀ u, Sees P i s u → (pending u).SeatTaken row →
      Q false pending (.seat row.workspaceId row.userId :: .memberKey row.id :: held) u) :
    wp P i (insertMember row) Q pending held t := by
  simp only [insertMember, wp_bind, wp_take, wp_ask]
  intro u₀ hu₀ u hu v hv
  have hseen : Sees P i s v := ((ht.later hu₀).later hu).later hv
  split
  next hany =>
    simp only [List.any_eq_true, decide_eq_true_eq] at hany
    exact htaken v hseen hany
  next hany =>
    simp only [List.any_eq_true, decide_eq_true_eq] at hany
    exact hfree v hseen hany

theorem wp_createWorkspace {payload : WorkspaceCreateIn} {workspaceId memberId : Uuid}
    (h : ∀ user row, (∃ t, Sees P i s t ∧ t.user? userId = some user) → row.id = workspaceId →
      (∃ t, Sees P i s t ∧ ∀ w ∈ t.workspaces, w.id ≠ workspaceId) →
      ∀ seat : Member, seat = ⟨memberId, workspaceId, user.id, .owner, .active⟩ →
      ∀ more, .workspace workspaceId ∈ more → .seat workspaceId user.id ∈ more →
      .memberKey memberId ∈ more →
      ∀ u, Sees P i s u → ¬ u.SeatTaken seat →
      ∀ t, Later P i more u t → P.met (.created workspaceId user.id) t →
        Keeps P i more t (t.founded row seat)) :
    wp P i (createWorkspace userId payload workspaceId memberId) (fun _ _ _ _ => True) id [] s := by
  unfold createWorkspace
  rw [wp_bind]
  refine wp_getCurrentUser fun t₁ h₁ user huser => ?_
  simp only [wp_bind, wp_ask, wp_check, wp_take, wp_put]
  intro t₂ h₂ _ t₃ h₃ t₄ h₄ hfree
  have hseen₁ : Sees P i s t₁ := Sees.refl.later h₁
  have hseen₄ : Sees P i s t₄ := ((hseen₁.later h₂).later h₃).later h₄
  have hunused : ∀ w ∈ t₄.workspaces, w.id ≠ workspaceId := by
    simpa [List.any_eq_false] using hfree
  refine wp_insertMember hseen₄ (fun u hu hseat => ?_) (fun u hu _ => ?_)
  · intro _
    rw [wp_commitAs]
    intro t ht hmet
    refine ⟨h user _ ⟨t₁, hseen₁, huser⟩ rfl ⟨t₄, hseen₄, hunused⟩ _ rfl _ ?_
      (List.mem_cons_self ..) ?_ u hu hseat t ht hmet, trivial⟩
    · exact List.mem_cons_of_mem _ (List.mem_cons_of_mem _ (List.mem_cons_self ..))
    · exact List.mem_cons_of_mem _ (List.mem_cons_self ..)
  · exact fun hno => absurd hno (by decide)

section Invitations

variable {env : Env}

theorem wp_createInvitation {payload : InviteIn} {invitationId : Uuid} {plaintext : String}
    (h : ∀ user ws loaded row, AdminBasis (Sees P i s) userId user ws loaded →
      row.id = invitationId → row.workspaceId = ws.id → row.email = env.lower payload.email →
      row.status = .pending → row.invitedBy = some user.id →
      row.role = payload.role.role → row.acceptedBy = none →
      (∃ t, Sees P i s t ∧ t.memberWithEmail? env ws.id row.email = none) →
      ∀ more, .invitation row.id ∈ more → .pendingInvitation row.workspaceId row.email ∈ more →
      ∀ u, Sees P i s u → (∀ inv ∈ u.invitations, inv.id ≠ row.id ∧
        ¬ (inv.workspaceId = ws.id ∧ inv.email = row.email ∧ inv.status = .pending)) →
      ∀ t, Later P i more u t → P.met (.invited row) t → Keeps P i more t (t.addInvitation row)) :
    wp P i (createInvitation env userId wanted payload invitationId plaintext)
      (fun _ _ _ _ => True) id [] s := by
  unfold createInvitation
  rw [wp_bind]
  refine wp_adminDependencies Sees.refl fun user ws loaded hadmin t₁ h₁ => ?_
  simp only [wp_bind, wp_ask, wp_check]
  intro t₂ h₂ hmember t₃ h₃
  have hseen₂ : Sees P i s t₂ := h₁.later h₂
  split
  next => trivial
  next =>
    simp only [wp_bind, wp_ask, wp_take]
    intro t₄ h₄ t₅ h₅ t₆ h₆ t₇ h₇
    have hseen₇ : Sees P i s t₇ := ((((hseen₂.later h₃).later h₄).later h₅).later h₆).later h₇
    split
    next =>
      rw [wp_undo]
      exact fun _ _ => trivial
    next hfree =>
      simp only [List.any_eq_true, decide_eq_true_eq, not_exists, not_and, not_or] at hfree
      simp only [wp_bind, wp_put, wp_commitAs]
      intro t ht hmet
      let row : Invitation := ⟨invitationId, ws.id, env.lower payload.email, payload.role.role,
        some (env.hmac plaintext), .pending, some user.id,
        t₄.now + env.invitationTtlDays * microsPerDay, none, none⟩
      refine ⟨h user ws loaded row hadmin rfl rfl rfl rfl rfl rfl rfl ⟨t₂, hseen₂, hmember⟩
        _ ?_ (List.mem_cons_self ..) t₇ hseen₇ (fun inv hinv => ?_) t ht hmet, trivial⟩
      · exact List.mem_cons_of_mem _ (List.mem_cons_self ..)
      · have hne := hfree inv hinv
        exact ⟨hne.1, fun hsame => hne.2 hsame.1 hsame.2.1 hsame.2.2⟩

def State.withdrawn (s : State) (inv : Invitation) : State :=
  (s.updateInvitation inv { inv with status := .revoked }).record (.invitationRevoked inv.id)

theorem wp_revokeInvitation {invitationId : Uuid}
    (h : ∀ inv, inv.id = invitationId → inv.status = .pending →
      ∀ r, Sees P i s r → inv ∈ r.invitations →
      ∀ more, .invitation inv.id ∈ more → .pendingInvitation inv.workspaceId inv.email ∈ more →
      ∀ t, Sees P i r t → P.inv t → P.met (.withdrawn inv) t →
        Keeps P i more t (t.withdrawn inv)) :
    wp P i (revokeInvitation userId wanted invitationId) (fun _ _ _ _ => True) id [] s := by
  unfold revokeInvitation
  rw [wp_bind]
  refine wp_adminDependencies Sees.refl fun user ws loaded hadmin t₁ h₁ => ?_
  simp only [wp_bind, wp_ask, wp_orRaise, wp_check]
  intro t₂ h₂ inv hinv hpending
  have hfound := List.find?_some hinv
  simp only [decide_eq_true_eq] at hfound
  refine wp_flushInvitation fun more _ hrow hkey t₃ h₃ => ?_
  simp only [wp_put, wp_commitAs]
  intro t ht hmet
  exact ⟨h inv hfound.1 hpending t₂ (h₁.later h₂) (List.mem_of_find?_eq_some hinv) more hrow hkey t
    ((Sees.refl.under h₃).later ht) ht.2 hmet, trivial⟩

/-- What an acceptance rests on: the invitation as the session has read it. -/
structure AcceptBasis (env : Env) (Seen : State → Prop) (userId : Uuid) (user : User)
    (inv : Invitation) : Prop where
  caller : ∃ t, Seen t ∧ t.user? userId = some user
  row : ∃ t, Seen t ∧ t.invitation? inv.id = some inv
  pending : inv.status = .pending
  unexpired : ∃ t, Seen t ∧ t.now < inv.expiresAt
  address : env.lower inv.email = env.lower user.email

def State.seated (s : State) (existing : Option Member) (row : Member) : State :=
  existing.elim (s.addMember row) fun m => s.patched m (m.seated row.role)

def State.accepted (s : State) (inv : Invitation) (read : Reading) (existing : Option Member)
    (row : Member) (now : Timestamp) : State :=
  ((s.recordSeat inv.id row.userId read).seated existing row).updateInvitation inv
    (inv.taken now row.userId)

def State.reseated (s : State) (seat : Option Member) (role : Role) : State :=
  seat.elim s fun m => s.patched m (m.seated role)

def State.retaken (s : State) (row : Option Invitation) (now : Timestamp) (userId : Uuid) : State :=
  (row.filter fun row => row.status ≠ .accepted).elim s fun row =>
    s.updateInvitation row (row.taken now userId)

def State.collided (s : State) (inv : Invitation) (read : Reading) (userId : Uuid)
    (seat : Option Member) (row : Option Invitation) (now : Timestamp) : State :=
  ((s.recordSeat inv.id userId read).reseated seat inv.role).retaken row now userId

theorem wp_reseat {colliding : Option Member} {role : Role} (ht : Sees P i s t)
    (h : ∀ more, held ⊆ more →
      (∀ m ∈ colliding, m.seated role ≠ m → .seat m.workspaceId m.userId ∈ more) →
      ∀ u, Sees P i s u → Q () (fun s => (pending s).reseated colliding role) more u) :
    wp P i (reseat colliding role) Q pending held t := by
  cases colliding with
  | none => exact h held (List.Subset.refl _) (fun _ hm => nomatch hm) t ht
  | some m =>
    refine wp_flushMember ht fun more hmore hseat u hu => h more hmore (fun m' hm' hne => ?_) u hu
    obtain rfl := Option.some.inj hm'
    exact hseat hne

theorem wp_retake {fresh : Option Invitation} {now : Timestamp} (ht : Sees P i s t)
    (h : ∀ more, held ⊆ more →
      (∀ r ∈ fresh, r.status ≠ .accepted → .invitation r.id ∈ more ∧
        .pendingInvitation r.workspaceId r.email ∈ more) →
      ∀ u, Sees P i s u → Q () (fun s => (pending s).retaken fresh now userId) more u) :
    wp P i (retake fresh now userId) Q pending held t := by
  unfold retake
  cases hrow : fresh.filter fun row => row.status ≠ .accepted with
  | none =>
    have hq := h held (List.Subset.refl _) (fun r hr hne => ?_) t ht
    · simp only [State.retaken, hrow, Option.elim_none] at hq
      exact hq
    · simp only [Option.mem_def] at hr
      simp [hr, hne] at hrow
  | some row =>
    refine wp_flushInvitation fun more hmore hlock hkey u hu => ?_
    have hq := h more hmore (fun r hr _ => ?_) u (ht.under hu)
    · simpa only [State.retaken, hrow, Option.elim_some] using hq
    · have heq : r = row := by
        simp only [Option.mem_def] at hr
        simp only [hr, Option.filter_some] at hrow
        split at hrow
        · exact Option.some.inj hrow
        · cases hrow
      exact heq ▸ ⟨hlock, hkey⟩

theorem wp_acceptCollided {inv : Invitation} {read : Reading} (ht : Sees P i s t)
    (h : ∀ seat row now, (∃ t, Sees P i s t ∧ t.seat? inv.workspaceId userId = seat) →
      ∀ v, Sees P i s v → P.inv v → v.invitation? inv.id = row →
      ∀ more, (∀ m ∈ seat, m.seated inv.role ≠ m → .seat m.workspaceId m.userId ∈ more) →
      (∀ r ∈ row, r.status ≠ .accepted → .invitation r.id ∈ more ∧
        .pendingInvitation r.workspaceId r.email ∈ more) →
      ∀ t, Sees P i v t → P.inv t → P.met (.accepted inv seat) t →
        Keeps P i more t (t.collided inv read userId seat row now)) :
    wp P i (acceptCollided inv userId read) (fun _ _ _ _ => True) pending held t := by
  simp only [acceptCollided, wp_bind, wp_undo, wp_ask, wp_put]
  intro t₁ h₁ t₂ h₂ t₃ h₃ t₄ h₄
  have hseen₂ : Sees P i s t₂ := (ht.later h₁).later h₂
  refine wp_reseat (Sees.refl.later h₄) fun more₁ _ hseat t₅ h₅ => ?_
  refine wp_retake h₅ fun more₂ hmore hrow t₆ h₆ => ?_
  rw [wp_commitAs]
  intro t ht hmet
  exact ⟨h _ _ _ ⟨t₂, hseen₂, rfl⟩ t₃ (hseen₂.later h₃) h₃.2 rfl more₂
    (fun m hm hne => hmore (hseat m hm hne)) hrow t (h₆.later ht) ht.2 hmet, trivial⟩

theorem wp_takeSeat {existing : Option Member} {row : Member} {Q : Post State Lock Bool}
    (ht : Sees P i s t)
    (hseated : ∀ more, held ⊆ more →
      (∀ m ∈ existing, m.seated row.role ≠ m → .seat m.workspaceId m.userId ∈ more) →
      ∀ u, Sees P i s u → (existing = none → .seat row.workspaceId row.userId ∈ more ∧
        .memberKey row.id ∈ more ∧ ¬ (pending u).SeatTaken row) →
      Q true (fun s => (pending s).seated existing row) more u)
    (htaken : existing = none → ∀ u, Sees P i s u → (pending u).SeatTaken row →
      Q false pending (.seat row.workspaceId row.userId :: .memberKey row.id :: held) u) :
    wp P i (takeSeat existing row) Q pending held t := by
  cases existing with
  | none =>
    refine wp_insertMember ht (fun u hu hfree => ?_) (htaken rfl)
    refine hseated _ (fun l hl => ?_) (by simp) u hu fun _ => ⟨?_, ?_, hfree⟩
    · exact List.mem_cons_of_mem _ (List.mem_cons_of_mem _ hl)
    · exact List.mem_cons_self ..
    · exact List.mem_cons_of_mem _ (List.mem_cons_self ..)
  | some m =>
    simp only [takeSeat, wp_bind, wp_pure]
    refine wp_flushMember ht fun more hmore hseat u hu =>
      hseated more hmore (fun m' hm' hne => ?_) u hu (by simp)
    obtain rfl := Option.some.inj hm'
    exact hseat hne

def ReadOpen (P : Protocol ι State Lock Mark) (i : ι) (s : State) (inv : Invitation) (r : State) :
    Prop :=
  Sees P i s r ∧ P.inv r ∧ r.invitation? inv.id = some inv ∧ ∃ u, Sees P i r u ∧ u.now < inv.expiresAt

/-- What an acceptance has read and holds when it commits. -/
theorem wp_acceptInvitation {token : Option (Uuid × String)}
    (haccept : ∀ user inv, AcceptBasis env (Sees P i s) userId user inv →
      ∀ r, ReadOpen P i s inv r →
      ∀ existing now, (∃ t, Sees P i s t ∧ t.seat? inv.workspaceId user.id = existing) →
      ∀ row : Member, row = ⟨memberId, inv.workspaceId, user.id, inv.role, .active⟩ →
      ∀ more, (∀ m ∈ existing, m.seated inv.role ≠ m → .seat m.workspaceId m.userId ∈ more) →
      (existing = none → .seat inv.workspaceId user.id ∈ more ∧ .memberKey memberId ∈ more) →
      .invitation inv.id ∈ more → .pendingInvitation inv.workspaceId inv.email ∈ more →
      ∀ t, Sees P i r t → (existing = none → ∃ u, Sees P i s u ∧
        ¬ (u.recordSeat inv.id user.id (r.read inv.id)).SeatTaken row ∧
        Under P i [.seat inv.workspaceId user.id, .memberKey memberId] u t) →
      P.inv t → P.met (.accepted inv existing) t →
        Keeps P i more t (t.accepted inv (r.read inv.id) existing row now))
    (hcollide : ∀ user inv, AcceptBasis env (Sees P i s) userId user inv →
      ∀ r, ReadOpen P i s inv r →
      ∀ seat row now, (∃ t, Sees P i s t ∧ t.seat? inv.workspaceId user.id = seat) →
      ∀ v, Sees P i r v → P.inv v → v.invitation? inv.id = row →
      ∀ more, (∀ m ∈ seat, m.seated inv.role ≠ m → .seat m.workspaceId m.userId ∈ more) →
      (∀ r ∈ row, r.status ≠ .accepted → .invitation r.id ∈ more ∧
        .pendingInvitation r.workspaceId r.email ∈ more) →
      ∀ t, Sees P i v t → P.inv t → P.met (.accepted inv seat) t →
        Keeps P i more t (t.collided inv (r.read inv.id) user.id seat row now)) :
    wp P i (acceptInvitation env userId token memberId) (fun _ _ _ _ => True) id [] s := by
  unfold acceptInvitation
  rw [wp_bind]
  refine wp_getCurrentUser fun t₁ h₁ user huser => ?_
  simp only [wp_bind, wp_ask, wp_orRaise, wp_check, wp_put]
  intro named _ r hr found hfound hpending t₃ h₃ hunexpired haddress t₄ h₄ t₅ h₅
  obtain ⟨inv, hinv, rfl⟩ := Option.map_eq_some_iff.mp (Option.filter_eq_some_iff.mp hfound).1
  have hseen₁ : Sees P i s t₁ := Sees.refl.later h₁
  have hseen : Sees P i s r := hseen₁.later hr
  have hafter₄ : Sees P i r t₄ := (Sees.refl.later h₃).later h₄
  have hrow : r.invitation? inv.id = some inv := by
    have hid := List.find?_some hinv
    simp only [decide_eq_true_eq] at hid
    rw [hid]
    exact hinv
  have hbasis : AcceptBasis env (Sees P i s) userId user inv :=
    ⟨⟨t₁, hseen₁, huser⟩, ⟨r, hseen, hrow⟩, hpending, ⟨t₃, hseen.later h₃, hunexpired⟩, haddress⟩
  have hopen : ReadOpen P i s inv r := ⟨hseen, hr.2, hrow, t₃, Sees.refl.later h₃, hunexpired⟩
  refine wp_takeSeat (hafter₄.later h₅) (fun more _ hseat u hu hnew => ?_) (fun _ u hu _ => ?_)
  · rw [if_pos rfl, wp_bind]
    refine wp_flushInvitation fun more' hmore hlock hkey v hv => ?_
    rw [wp_commitAs]
    intro t ht hmet
    refine ⟨haccept user inv hbasis r hopen _ _ ⟨t₄, hseen.under hafter₄, rfl⟩ _ rfl more'
      (fun m hm hne => hmore (hseat m hm hne))
      (fun hnone => ⟨hmore (hnew hnone).1, hmore (hnew hnone).2.1⟩) hlock hkey t
      ((hu.under hv).later ht) (fun hnone => ⟨u, hseen.under hu, (hnew hnone).2.2, ?_⟩) ht.2 hmet,
      trivial⟩
    have hkeys : [.seat inv.workspaceId user.id, .memberKey memberId] ⊆ more := by
      intro l hl
      rcases List.mem_pair.mp hl with rfl | rfl
      · exact (hnew hnone).1
      · exact (hnew hnone).2.1
    exact (hv.of_subset hkeys).later (List.Subset.trans hkeys hmore) ht
  · exact wp_acceptCollided hu fun seat row now hseat v hv =>
      hcollide user inv hbasis r hopen seat row now
        (hseat.imp fun _ h => ⟨hseen.under h.1, h.2⟩) v hv

theorem wp_createToken {payload : ApiTokenIn} {tokenId : Uuid} {secret : String}
    (h : ∀ row : ApiToken, row.id = tokenId → row.revokedAt = none →
      ∀ start, Sees P i s start → row.requested = start.history.length →
      ∀ more, .token row.id ∈ more →
      ∀ u, Sees P i start u → (∀ token ∈ u.tokens, token.id ≠ row.id) →
      ∀ t, Later P i more u t → P.met (.minted row) t →
        Keeps P i more t ((t.addToken row).record (.tokenMinted row.id))) :
    wp P i (createToken env userId wanted payload tokenId secret) (fun _ _ _ _ => True) id [] s := by
  unfold createToken
  rw [wp_bind, wp_ask]
  intro start hstart
  rw [wp_bind]
  refine wp_getCurrentUser fun t₁ h₁ user _ => ?_
  rw [wp_bind]
  refine wp_getCurrentWorkspace fun t₂ h₂ u hu t₃ h₃ ws _ => ?_
  simp only [wp_bind, wp_ask, wp_take, wp_check, wp_put, wp_commitAs]
  intro t₄ h₄ t₅ h₅ t₆ h₆ hfree t ht hmet
  have hseen₃ : Sees P i start t₃ := (((Sees.refl.later h₁).later h₂).later hu).later h₃
  have hseen₆ : Sees P i start t₆ := ((hseen₃.later h₄).later h₅).later h₆
  have hunused : ∀ token ∈ t₆.tokens, token.id ≠ tokenId := by
    simpa [List.any_eq_false] using hfree
  exact ⟨h _ rfl rfl start (Sees.refl.later hstart) rfl _ (List.mem_cons_self ..) t₆ hseen₆ hunused
    t ht hmet, trivial⟩

end Invitations

end StockManager.Tenancy
