import StockManager.Effects.TenancySteps

/-! # The rows after a route's writes -/

namespace StockManager.Tenancy

variable {s : State}

theorem stored_self (m k : Member) : m.stored m k = k := by
  simp [Member.stored, written]

theorem stored_loaded (m new : Member) :
    m.stored new m = { m with role := new.role, status := new.status } := by
  unfold Member.stored written
  congr 1
  · split
    next h => exact h.symm
    next => rfl
  · split
    next h => exact h.symm
    next => rfl

theorem patched_eq (m new : Member) :
    s.patched m new =
      { s with members := s.members.map fun k => if k.id = m.id then m.stored new k else k } := by
  unfold State.patched
  split
  next heq =>
    subst heq
    simp [stored_self]
  next => rfl

theorem patched_members (m new : Member) :
    (s.patched m new).members = s.members.map fun k => if k.id = m.id then m.stored new k else k := by
  rw [patched_eq]

theorem patched_keys {β : Type} (m new : Member) {f : Member → β} (hf : ∀ k, f (m.stored new k) = f k) :
    (s.patched m new).members.map f = s.members.map f := by
  rw [patched_members, List.map_map]
  refine List.map_congr_left fun k _ => ?_
  simp only [Function.comp_apply]
  split
  · exact hf k
  · rfl

theorem patched_invitations (m new : Member) : (s.patched m new).invitations = s.invitations := by
  rw [patched_eq]

theorem patched_users (m new : Member) : (s.patched m new).users = s.users := by
  rw [patched_eq]

theorem patched_workspaces (m new : Member) : (s.patched m new).workspaces = s.workspaces := by
  rw [patched_eq]

theorem ids_updateInvitation (inv new : Invitation) :
    (s.updateInvitation inv new).invitations.map (·.id) = s.invitations.map (·.id) := by
  simp only [State.updateInvitation, List.map_map]
  refine List.map_congr_left fun k _ => ?_
  simp only [Function.comp_apply]
  split
  · rfl
  · rfl

theorem closed_updateInvitation {loaded new old : Invitation} (hnew : new.status ≠ .pending)
    (hold : old ∈ s.invitations) :
    ∃ inv ∈ (s.updateInvitation loaded new).invitations, inv.id = old.id ∧
      (old.status ≠ .pending ∨ (old.id = loaded.id ∧ new.status ≠ loaded.status) →
        inv.status ≠ .pending) := by
  by_cases hid : old.id = loaded.id
  · refine ⟨loaded.stored new old, List.mem_map.mpr ⟨old, hold, if_pos hid⟩, rfl, fun hclosed => ?_⟩
    show written loaded.status new.status old.status ≠ .pending
    unfold written
    split
    next hsame => exact hclosed.resolve_right fun h => h.2 hsame
    next => exact hnew
  · exact ⟨old, List.mem_map.mpr ⟨old, hold, if_neg hid⟩, rfl,
      fun hclosed => hclosed.resolve_right fun h => hid h.1⟩

theorem role_of_apply {payload : MemberPatch} {m new : Member} (h : payload.apply m = some new) :
    new.role = (payload.role.getD (some m.role)).getD m.role := by
  unfold MemberPatch.apply at h
  split at h
  next hrole _ =>
    obtain rfl := Option.some.inj h
    rw [hrole]
    rfl
  next hrole _ =>
    obtain rfl := Option.some.inj h
    rw [hrole]
    rfl
  next => cases h

/-- A role changes only to the one the payload sets. -/
theorem role_of_patch {payload : MemberPatch} {m new : Member} (h : payload.apply m = some new)
    (hne : new.role ≠ m.role) : payload.role = some (some new.role) := by
  have hrole := role_of_apply h
  cases hfield : payload.role with
  | none => exact absurd (hrole.trans (by rw [hfield]; rfl)) hne
  | some value =>
    cases value with
    | none => exact absurd (hrole.trans (by rw [hfield]; rfl)) hne
    | some role =>
      have heq : new.role = role := hrole.trans (by rw [hfield]; rfl)
      rw [heq]

theorem status_of_patch {payload : MemberPatch} {m new : Member} (h : payload.apply m = some new)
    (hne : new.status ≠ m.status) :
    ∃ status, payload.status = some (some status) ∧ new.status = status.status := by
  unfold MemberPatch.apply at h
  split at h
  next =>
    obtain rfl := Option.some.inj h
    exact absurd rfl hne
  next _ hstatus =>
    obtain rfl := Option.some.inj h
    obtain ⟨value, hfield, hvalue⟩ := Option.map_eq_some_iff.mp hstatus
    obtain ⟨status, rfl, hstatus⟩ := Option.map_eq_some_iff.mp hvalue
    exact ⟨status, hfield, hstatus.symm⟩
  next => cases h

end StockManager.Tenancy
