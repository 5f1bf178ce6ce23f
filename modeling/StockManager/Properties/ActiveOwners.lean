import StockManager.Properties.RoleAuthority

/-! # The active owners of a workspace, whatever requests overlap -/

namespace StockManager.Tenancy

open Sessions

variable {s t : State}
variable {m new k row : Member} {workspaceId : Uuid} {u : State}

/-- The seat is an active owner's. -/
def Member.Owns (m : Member) : Prop := m.role = .owner ∧ m.status = .active

instance (m : Member) : Decidable m.Owns :=
  inferInstanceAs (Decidable (m.role = .owner ∧ m.status = .active))

def Owned (s : State) : Prop := ∀ w ∈ s.workspaces, 0 < s.activeOwnerCount w.id

theorem mem_activeOwners :
    k ∈ s.activeOwners workspaceId ↔ k ∈ s.members ∧ k.workspaceId = workspaceId ∧ k.Owns := by
  unfold State.activeOwners Member.Owns
  rw [List.mem_filter, decide_eq_true_eq]

theorem activeOwnerCount_pos :
    0 < s.activeOwnerCount workspaceId ↔
      ∃ k ∈ s.members, k.workspaceId = workspaceId ∧ k.Owns := by
  unfold State.activeOwnerCount
  rw [List.length_pos_iff_exists_mem]
  exact exists_congr fun k => mem_activeOwners

theorem exists_other_owner (hids : (s.members.map (·.id)).Nodup)
    (hmany : 1 < s.activeOwnerCount workspaceId) (id : Uuid) :
    ∃ k ∈ s.activeOwners workspaceId, k.id ≠ id := by
  by_contra hnone
  have hsame : ∀ k ∈ s.activeOwners workspaceId, k.id = id :=
    fun k hk => by_contra fun hne => hnone ⟨k, hk, hne⟩
  have hnodup : ((s.activeOwners workspaceId).map (·.id)).Nodup :=
    hids.sublist (List.filter_sublist.map _)
  have hall : (s.activeOwners workspaceId).map (·.id) =
      List.replicate (s.activeOwnerCount workspaceId) id := by
    refine List.eq_replicate_iff.mpr ⟨List.length_map .., fun a ha => ?_⟩
    obtain ⟨k, hk, rfl⟩ := List.mem_map.mp ha
    exact hsame k hk
  rw [hall, List.nodup_replicate] at hnodup
  omega

/-- What is asked of a commit that changes the seat of a stored active owner: the seat was
an owner's when the route loaded it, and the check the route made on the number of active
owners still holds. Where the route makes no such check, there is another active owner. -/
def OwnerKept : Mark → State → Prop
  | .patched loaded payload counted, s => ∀ k ∈ s.members, k.id = loaded.id → k.Owns →
    (payload.demotes → payload.role ≠ some (some loaded.role) → loaded.role = .owner) ∧
    (counted.isSome → 1 < s.activeOwnerCount k.workspaceId) ∧
    (payload.status = some (some .disabled) → loaded.status ≠ .disabled →
      1 < s.activeOwnerCount k.workspaceId)
  | .removed loaded counted, s => ∀ k ∈ s.members, k.id = loaded.id → k.Owns →
    loaded.role = .owner ∧ (counted.isSome → 1 < s.activeOwnerCount k.workspaceId)
  | .accepted inv existing, s => ∀ m ∈ existing, inv.role ≠ m.role →
    ∀ k ∈ s.members, k.id = m.id → k.Owns → 1 < s.activeOwnerCount k.workspaceId
  | _, _ => True

instance : (mark : Mark) → (s : State) → Decidable (OwnerKept mark s)
  | .patched loaded payload counted, s =>
    inferInstanceAs (Decidable (∀ k ∈ s.members, k.id = loaded.id → k.Owns →
      (payload.demotes → payload.role ≠ some (some loaded.role) → loaded.role = .owner) ∧
      (counted.isSome → 1 < s.activeOwnerCount k.workspaceId) ∧
      (payload.status = some (some .disabled) → loaded.status ≠ .disabled →
        1 < s.activeOwnerCount k.workspaceId)))
  | .removed loaded counted, s =>
    inferInstanceAs (Decidable (∀ k ∈ s.members, k.id = loaded.id → k.Owns →
      loaded.role = .owner ∧ (counted.isSome → 1 < s.activeOwnerCount k.workspaceId)))
  | .accepted inv existing, s => inferInstanceAs (Decidable (∀ m ∈ existing, inv.role ≠ m.role →
      ∀ k ∈ s.members, k.id = m.id → k.Owns → 1 < s.activeOwnerCount k.workspaceId))
  | .created .., _ | .invited .., _ | .withdrawn .., _ | .minted .., _ => .isTrue trivial

/-- No two memberships have one id, and every workspace has an active owner. -/
structure OwnersInv (s : State) : Prop where
  ids : (s.members.map (·.id)).Nodup
  owned : Owned s

def AddsOwnIds (held : List Lock) (s t : State) : Prop :=
  ∀ m ∈ t.members, (∃ k ∈ s.members, k.id = m.id) ∨ .memberKey m.id ∈ held

def KeepsIds (held : List Lock) (s t : State) : Prop :=
  ∀ m ∈ t.members, .memberKey m.id ∈ held → ∃ k ∈ s.members, k.id = m.id

def ownersProtocol (ι : Type) : Protocol ι State Lock Mark where
  inv := OwnersInv
  met := OwnerKept
  rely _ := KeepsIds
  guar _ := AddsOwnIds
  rely_refl _ _ _ := fun m hm _ => ⟨m, hm, rfl⟩
  rely_trans {_ _ _ _ _} h h' := fun m hm hheld => by
    obtain ⟨k, hk, hid⟩ := h' m hm hheld
    obtain ⟨k', hk', hid'⟩ := h k hk (hid ▸ hheld)
    exact ⟨k', hk', hid'.trans hid⟩
  others _ _ _ hdisjoint h := fun m hm hmine => (h m hm).resolve_right (hdisjoint _ hmine)

theorem not_owns_stored (hk : k.Owns) (hended : ¬ (m.stored new k).Owns) :
    (new.role ≠ m.role ∧ new.role ≠ .owner) ∨ (new.status ≠ m.status ∧ new.status ≠ .active) := by
  obtain ⟨hrole, hstatus⟩ := hk
  by_contra hnone
  rw [not_or, not_and_or, not_and_or, not_not, not_not, not_not, not_not] at hnone
  refine hended ⟨?_, ?_⟩
  · show written m.role new.role k.role = .owner
    unfold written
    split
    next => exact hrole
    next hne => exact hnone.1.resolve_left hne
  · show written m.status new.status k.status = .active
    unfold written
    split
    next => exact hstatus
    next hne => exact hnone.2.resolve_left hne

theorem owned_patched (hs : OwnersInv s)
    (hmany : ∀ k ∈ s.members, k.id = m.id → k.Owns → ¬ (m.stored new k).Owns →
      1 < s.activeOwnerCount k.workspaceId) : OwnersInv (s.patched m new) := by
  refine ⟨?_, fun w hw => ?_⟩
  · rw [patched_keys m new fun _ => rfl]
    exact hs.ids
  · rw [patched_workspaces] at hw
    have hstored : ∀ k ∈ s.members, k.id ≠ m.id → k ∈ (s.patched m new).members := by
      intro k hk hne
      rw [patched_members]
      exact List.mem_map.mpr ⟨k, hk, if_neg hne⟩
    obtain ⟨k, hk, hws, howns⟩ := activeOwnerCount_pos.mp (hs.owned w hw)
    by_cases hid : k.id = m.id
    · by_cases hkept : (m.stored new k).Owns
      · refine activeOwnerCount_pos.mpr ⟨m.stored new k, ?_, hws, hkept⟩
        rw [patched_members]
        exact List.mem_map.mpr ⟨k, hk, if_pos hid⟩
      · obtain ⟨other, hother, hne⟩ := exists_other_owner hs.ids (hmany k hk hid howns hkept) m.id
        obtain ⟨hmem, hplace, howner⟩ := mem_activeOwners.mp hother
        exact activeOwnerCount_pos.mpr ⟨other, hstored other hmem hne, hplace.trans hws, howner⟩
    · exact activeOwnerCount_pos.mpr ⟨k, hstored k hk hid, hws, howns⟩

theorem owned_deleted (hs : OwnersInv s) {id : Uuid}
    (hmany : ∀ k ∈ s.members, k.id = id → k.Owns → 1 < s.activeOwnerCount k.workspaceId) :
    OwnersInv (s.deleteMember id) := by
  refine ⟨hs.ids.sublist (List.filter_sublist.map _), fun w hw => ?_⟩
  have hstored : ∀ k ∈ s.members, k.id ≠ id → k ∈ (s.deleteMember id).members :=
    fun k hk hne => List.mem_filter.mpr ⟨hk, decide_eq_true hne⟩
  obtain ⟨k, hk, hws, howns⟩ := activeOwnerCount_pos.mp (hs.owned w hw)
  by_cases hid : k.id = id
  · obtain ⟨other, hother, hne⟩ := exists_other_owner hs.ids (hmany k hk hid howns) id
    obtain ⟨hmem, hplace, howner⟩ := mem_activeOwners.mp hother
    exact activeOwnerCount_pos.mpr ⟨other, hstored other hmem hne, hplace.trans hws, howner⟩
  · exact activeOwnerCount_pos.mpr ⟨k, hstored k hk hid, hws, howns⟩

theorem owned_added (hs : OwnersInv s) (hfree : ∀ k ∈ s.members, k.id ≠ row.id) :
    OwnersInv (s.addMember row) := by
  have hids : (s.addMember row).members.map (·.id) = s.members.map (·.id) ++ [row.id] :=
    List.map_append ..
  refine ⟨?_, fun w hw => ?_⟩
  · rw [hids, List.nodup_append]
    refine ⟨hs.ids, List.nodup_singleton _, fun a ha b hb => ?_⟩
    obtain ⟨k, hk, rfl⟩ := List.mem_map.mp ha
    obtain rfl := List.mem_singleton.mp hb
    exact hfree k hk
  · obtain ⟨k, hk, hrest⟩ := activeOwnerCount_pos.mp (hs.owned w hw)
    exact activeOwnerCount_pos.mpr ⟨k, List.mem_append_left _ hk, hrest⟩

theorem owned_founded (hs : OwnersInv s) {row : Workspace} {seat : Member}
    (hfree : ∀ k ∈ s.members, k.id ≠ seat.id) (hplace : seat.workspaceId = row.id)
    (howns : seat.Owns) : OwnersInv (s.founded row seat) := by
  have hadded := owned_added hs hfree
  refine ⟨hadded.ids, fun w hw => ?_⟩
  rcases List.mem_append.mp hw with hw | hw
  · exact hadded.owned w hw
  · obtain rfl := List.mem_singleton.mp hw
    exact activeOwnerCount_pos.mpr
      ⟨seat, List.mem_append_right _ (List.mem_singleton_self _), hplace, howns⟩

theorem OwnersInv.congr (hs : OwnersInv s) (hmembers : t.members = s.members)
    (hworkspaces : t.workspaces = s.workspaces) : OwnersInv t := by
  refine ⟨hmembers ▸ hs.ids, fun w hw => ?_⟩
  have hcount : t.activeOwnerCount w.id = s.activeOwnerCount w.id := by
    unfold State.activeOwnerCount State.activeOwners
    rw [hmembers]
  exact hcount ▸ hs.owned w (hworkspaces ▸ hw)

theorem addsOwnIds_of_map {held : List Lock}
    (h : t.members.map (·.id) = s.members.map (·.id)) : AddsOwnIds held s t := by
  intro m hm
  have hid : m.id ∈ s.members.map (·.id) := h ▸ List.mem_map_of_mem hm
  obtain ⟨k, hk, hkid⟩ := List.mem_map.mp hid
  exact Or.inl ⟨k, hk, hkid⟩

theorem addsOwnIds_added {held : List Lock} (h : t.members = s.members ++ [row])
    (hkey : .memberKey row.id ∈ held) : AddsOwnIds held s t := by
  intro m hm
  rw [h] at hm
  rcases List.mem_append.mp hm with hm | hm
  · exact Or.inl ⟨m, hm, rfl⟩
  · obtain rfl := List.mem_singleton.mp hm
    exact Or.inr hkey

section Requests

variable {ι : Type} {i : ι} {held : List Lock}

theorem keeps_patched (hs : OwnersInv t)
    (hmany : ∀ k ∈ t.members, k.id = m.id → k.Owns → ¬ (m.stored new k).Owns →
      1 < t.activeOwnerCount k.workspaceId) :
    Keeps (ownersProtocol ι) i held t (t.patched m new) :=
  ⟨owned_patched hs hmany, addsOwnIds_of_map (patched_keys m new fun _ => rfl)⟩

theorem keeps_same (hs : OwnersInv t) (hmembers : u.members = t.members)
    (hworkspaces : u.workspaces = t.workspaces) : Keeps (ownersProtocol ι) i held t u :=
  ⟨hs.congr hmembers hworkspaces, addsOwnIds_of_map (congrArg (List.map _) hmembers)⟩

theorem retaken_members {row : Option Invitation} {now : Timestamp} {userId : Uuid} :
    (s.retaken row now userId).members = s.members := by
  unfold State.retaken
  cases row.filter fun row => row.status ≠ .accepted with
  | none => rfl
  | some row => rfl

theorem retaken_workspaces {row : Option Invitation} {now : Timestamp} {userId : Uuid} :
    (s.retaken row now userId).workspaces = s.workspaces := by
  unfold State.retaken
  cases row.filter fun row => row.status ≠ .accepted with
  | none => rfl
  | some row => rfl

theorem free_under {id : Uuid} {locks : List Lock} (hkey : .memberKey id ∈ locks)
    (hfree : ∀ k ∈ s.members, k.id ≠ id) (h : Under (ownersProtocol ι) i locks s u) :
    ∀ k ∈ u.members, k.id ≠ id := by
  refine h.induct (R := fun v => ∀ k ∈ v.members, k.id ≠ id) hfree ?_
  intro held v w hsub hlater hv k hk hid
  obtain ⟨k', hk', hid'⟩ := hlater.1 k hk (hid.symm ▸ hsub hkey)
  exact hv k' hk' (hid'.trans hid)

theorem free_of_seat (h : ¬ u.SeatTaken row) :
    ∀ k ∈ u.members, k.id ≠ row.id := fun k hk hid => h ⟨k, hk, Or.inl hid⟩

theorem many_of_patch {payload : MemberPatch} {counted : Option ℕ}
    {Seen : State → Prop} (hk : k ∈ t.members) (hid : k.id = m.id)
    (howns : k.Owns) (hended : ¬ (m.stored new k).Owns) (hnew : payload.apply m = some new)
    (hcounted : OwnersCounted Seen (m.role = .owner ∧ payload.demotes) workspaceId counted)
    (hkept : OwnerKept (.patched m payload counted) t) : 1 < t.activeOwnerCount k.workspaceId := by
  obtain ⟨hfresh, hcheck, hdisabled⟩ := hkept k hk hid howns
  rcases not_owns_stored howns hended with ⟨hwritten, hrole⟩ | ⟨hwritten, hstatus⟩
  · have hfield := role_of_patch hnew hwritten
    have hdemotes : payload.demotes = true := by
      simp [MemberPatch.demotes, hfield, hrole]
    have howner : m.role = .owner := by
      refine hfresh hdemotes fun hsame => hwritten ?_
      exact Option.some.inj (Option.some.inj (hfield.symm.trans hsame))
    obtain ⟨_, _, _, hsome⟩ := hcounted.1 ⟨howner, hdemotes⟩
    exact hcheck (by rw [hsome]; rfl)
  · obtain ⟨status, hfield, heq⟩ := status_of_patch hnew hwritten
    cases status with
    | active => exact absurd heq hstatus
    | disabled => exact hdisabled hfield fun hsame => hwritten (heq.trans hsame.symm)

theorem keeps_seated {inv : Invitation} (hs : OwnersInv t)
    (hkept : inv.role ≠ m.role → ∀ k ∈ t.members, k.id = m.id → k.Owns →
      1 < t.activeOwnerCount k.workspaceId) :
    OwnersInv (t.patched m (m.seated inv.role)) := by
  refine owned_patched hs fun k hk hid howns hended => ?_
  rcases not_owns_stored howns hended with ⟨hwritten, _⟩ | ⟨_, hstatus⟩
  · exact hkept hwritten k hk hid howns
  · exact absurd rfl hstatus

theorem wp_request (env : Env) (r : Request) :
    wp (ownersProtocol ι) i (r.prog env) (fun _ _ _ _ => True) id [] s := by
  cases r with
  | createWorkspace userId payload workspaceId memberId =>
    refine wp_createWorkspace fun user row _ hrow _ seat hseat more _ _ hkey u _ hfree t ht _ => ?_
    subst hseat
    have hunused := free_under (List.mem_singleton_self _) (free_of_seat hfree)
      (Under.refl.later (List.cons_subset.mpr ⟨hkey, List.nil_subset _⟩) ht)
    exact ⟨owned_founded ht.2 hunused hrow.symm ⟨rfl, rfl⟩, addsOwnIds_added rfl hkey⟩
  | patchMember userId wanted memberId payload =>
    refine wp_patchMember fun _ _ _ _ _ _ _ _ _ hcounted hnew _ _ t _ hinv hmet =>
      keeps_patched hinv fun k hk hid howns hended => ?_
    exact many_of_patch hk hid howns hended hnew hcounted hmet
  | removeMember userId wanted memberId =>
    refine wp_removeMember fun _ _ _ m counted now _ _ _ hcounted _ _ _ ids _ _ _ _ t _ hinv
      hmet => ?_
    have hrevoked : OwnersInv (t.revokeTokens ids now) := hinv.congr rfl rfl
    refine ⟨(owned_deleted hrevoked fun k hk hid howns => ?_).congr rfl rfl,
      fun k hk => Or.inl ⟨k, (List.mem_filter.mp hk).1, rfl⟩⟩
    obtain ⟨howner, hcheck⟩ := hmet k hk hid howns
    obtain ⟨_, _, _, hsome⟩ := hcounted.1 howner
    exact hcheck (by rw [hsome]; rfl)
  | createInvitation userId wanted payload invitationId plaintext =>
    exact wp_createInvitation fun _ _ _ _ _ _ _ _ _ _ _ _ _ _ _ _ _ _ _ t ht _ =>
      keeps_same ht.2 rfl rfl
  | revokeInvitation userId wanted invitationId =>
    exact wp_revokeInvitation fun _ _ _ _ _ _ _ _ _ t _ hinv _ => keeps_same hinv rfl rfl
  | acceptInvitation userId token memberId =>
    refine wp_acceptInvitation
      (fun user inv _ r _ existing _ _ row hrow more _ hkeys _ _ t _ hfree hinv hmet => ?_)
      (fun user inv _ r _ seat fresh now _ v _ _ _ more _ _ t _ hinv hmet => ?_)
    · subst hrow
      have hrecorded : OwnersInv (t.recordSeat inv.id user.id (r.read inv.id)) := hinv.congr rfl rfl
      cases existing with
      | none =>
        obtain ⟨u, _, hunused, hunder⟩ := hfree rfl
        have hclear : ∀ k ∈ u.members, k.id ≠ memberId := free_of_seat hunused
        have hstored := free_under (List.mem_pair.mpr (Or.inr rfl)) hclear hunder
        have hadded : OwnersInv ((t.recordSeat inv.id user.id (r.read inv.id)).addMember
            ⟨memberId, inv.workspaceId, user.id, inv.role, .active⟩) := owned_added hrecorded hstored
        exact ⟨hadded.congr rfl rfl, addsOwnIds_added rfl (hkeys rfl).2⟩
      | some m =>
        have hseated := keeps_seated hrecorded (hmet m rfl)
        exact ⟨hseated.congr rfl rfl, addsOwnIds_of_map (patched_keys m _ fun _ => rfl)⟩
    · have hrecorded : OwnersInv (t.recordSeat inv.id user.id (r.read inv.id)) := hinv.congr rfl rfl
      have hreseated : Keeps (ownersProtocol ι) i more t
          ((t.recordSeat inv.id user.id (r.read inv.id)).reseated seat inv.role) := by
        cases seat with
        | none => exact ⟨hrecorded, addsOwnIds_of_map rfl⟩
        | some m => exact ⟨keeps_seated hrecorded (hmet m rfl),
            addsOwnIds_of_map (patched_keys m _ fun _ => rfl)⟩
      exact ⟨hreseated.1.congr retaken_members retaken_workspaces,
        fun k hk => hreseated.2 k (retaken_members (s := State.reseated _ _ _) ▸ hk)⟩
  | createToken userId wanted payload tokenId secret =>
    exact wp_createToken fun _ _ _ _ _ _ _ _ _ _ _ t ht _ => keeps_same ht.2 rfl rfl

/-- In every run in which the commits that end an ownership find the last-owner check still
standing, every workspace has an active owner in every committed state. -/
theorem owned_of_run [Fintype ι] [DecidableEq ι] {env : Env} {requests : ι → Request}
    {acts : List (Act ι ℕ)} {w : World ι State Lock Mark Refusal}
    (hids : (s.members.map (·.id)).Nodup) (howned : Owned s)
    (hmeets : Machine.Meets (World.step tick) (World.Granted OwnerKept)
      (start s fun i => (requests i).prog env) acts)
    (hrun : Machine.run (World.step tick) (start s fun i => (requests i).prog env) acts = some w) :
    Owned w.committed := by
  have hinv : OwnersInv s := ⟨hids, howned⟩
  have henv : Bears (ownersProtocol ι) tick := fun elapsed s hs =>
    ⟨OwnersInv.congr hs rfl rfl, fun j held m hm _ => ⟨m, hm, rfl⟩⟩
  exact (inv_of_run (P := ownersProtocol ι) henv hinv (fun i => wp_request env (requests i))
    hmeets hrun).owned

end Requests

/-- Ann's workspace, where Bob owns too. -/
def sampleOwners : State :=
  { sampleStart with
    workspaces := [⟨10, "Lab", .organization, 1, "EUR"⟩]
    members := [⟨100, 10, 1, .owner, .active⟩, ⟨101, 10, 2, .owner, .active⟩] }

/-- Ann demotes Bob while Bob removes Ann. -/
def sampleRivals : Fin 2 → Request
  | 0 => .patchMember 1 none 101 ⟨some (some .member), none⟩
  | 1 => .removeMember 2 none 100

/-- Bob's request has read his own seat when Ann's runs; it counts the owners afterwards. -/
def sampleRivalry {ι : Type} (first second : ι) : List (Act ι ℕ) :=
  List.replicate 3 (.advance second) ++ List.replicate 13 (.advance first) ++
    List.replicate 5 (.advance second)

theorem owned_of_run_sample :
    ∃ w, Machine.run (World.step tick) (start sampleOwners fun i => (sampleRivals i).prog sampleEnv)
      (sampleRivalry 0 1) = some w ∧ w.committed.activeOwnerCount 10 = 1 ∧ Owned w.committed := by
  have hran : (Machine.run (World.step tick)
      (start sampleOwners fun i => (sampleRivals i).prog sampleEnv)
      (sampleRivalry 0 1)).map (fun w => w.committed.activeOwnerCount 10) = some 1 := by
    decide
  obtain ⟨w, hrun, hcount⟩ := Option.map_eq_some_iff.mp hran
  have howned : Owned sampleOwners := by
    unfold Owned
    decide
  exact ⟨w, hrun, hcount, owned_of_run (by decide) howned (by decide) hrun⟩

def sampleAbandon : Fin 2 → Request
  | 0 => .createWorkspace 1 ⟨"Lab", "EUR"⟩ 10 100
  | 1 => .patchMember 1 none 100 ⟨none, some (some .disabled)⟩

theorem last_owner_disabled :
    ¬ ∀ (s : State) (requests : Fin 2 → Request) (acts : List (Act (Fin 2) ℕ))
      (w : World (Fin 2) State Lock Mark Refusal),
      (s.members.map (·.id)).Nodup → Owned s →
      Machine.run (World.step tick) (start s fun i => (requests i).prog sampleEnv) acts = some w →
        Owned w.committed := by
  intro h
  have hran : (Machine.run (World.step tick)
      (start sampleStart fun i => (sampleAbandon i).prog sampleEnv)
      (List.replicate 11 (.advance 0) ++ List.replicate 12 (.advance 1))).map (fun w =>
        w.committed.workspaces.all fun row => 0 < w.committed.activeOwnerCount row.id) =
      some false := by
    decide
  obtain ⟨w, hrun, hnone⟩ := Option.map_eq_some_iff.mp hran
  have howned : Owned sampleStart := fun _ hw => absurd hw List.not_mem_nil
  have hkept := h sampleStart _ _ w (by decide) howned hrun
  have hall : w.committed.workspaces.all
      (fun row => 0 < w.committed.activeOwnerCount row.id) = true :=
    List.all_eq_true.mpr fun row hrow => decide_eq_true (hkept row hrow)
  rw [hall] at hnone
  cases hnone

end StockManager.Tenancy
