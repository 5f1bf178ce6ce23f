import StockManager.Properties.RoleAuthority

/-! # Seats, tokens and invitations over a run -/

namespace StockManager.Tenancy

open Sessions

variable {env : Env} {s t u : State}
variable {e : Event} {new : List Event} {r : State} {inv : Invitation} {locks : List Lock}
  {now : Timestamp}

def Closes (invitationId : Uuid) : Event → Prop
  | .invitationRevoked id => id = invitationId
  | .seatGiven id _ _ => id = invitationId
  | _ => False

/-- The token was minted after the first `events` events. -/
def MintedAfter (s : State) (tokenId : Uuid) (events : ℕ) : Prop :=
  .tokenMinted tokenId ∈ s.history.take (s.history.length - events)

/-- Tokens end with the seat, as far as the removal could see them; who takes a seat by a
closed invitation had read it before, when it was open. -/
structure SeatsEnd (env : Env) (s : State) : Prop where
  tokens : ∀ later earlier workspaceId userId events,
    s.history = later ++ .memberRemoved workspaceId userId events :: earlier →
    ∀ tokenId secret user token, resolveLiveToken env s tokenId secret = some (user, token) →
    token.workspaceId = workspaceId → token.userId = userId → MintedAfter s token.id events
  revoked : ∀ later earlier id, s.history = later ++ .invitationRevoked id :: earlier →
    ∀ userId read, .seatGiven id userId read ∈ later → read.events ≤ earlier.length
  accepted : ∀ later earlier id userId read, s.history = later ++ .seatGiven id userId read :: earlier →
    ∀ other read', .seatGiven id other read' ∈ later → read'.events ≤ earlier.length
  opened : ∀ id userId read, .seatGiven id userId read ∈ s.history → read.wasOpen = true

structure RemovalsEnd (s : State) : Prop where
  events : ∀ later earlier workspaceId userId events,
    s.history = later ++ .memberRemoved workspaceId userId events :: earlier →
    events ≤ earlier.length
  tokens : ∀ later earlier workspaceId userId events,
    s.history = later ++ .memberRemoved workspaceId userId events :: earlier →
    ∀ token ∈ s.tokens, token.workspaceId = workspaceId → token.userId = userId →
    token.revokedAt = none → MintedAfter s token.id events

structure SeatsInv (s : State) : Prop where
  ids : (s.invitations.map (·.id)).Nodup
  closed : ∀ e ∈ s.history, ∀ id, Closes id e → ∃ inv ∈ s.invitations, inv.id = id ∧
    inv.status ≠ .pending
  removals : RemovalsEnd s
  seats : ∀ later earlier e id userId read, s.history = later ++ e :: earlier → Closes id e →
    .seatGiven id userId read ∈ later → read.events ≤ earlier.length
  opened : ∀ id userId read, .seatGiven id userId read ∈ s.history → read.wasOpen = true

/-- What any request may do to what others have read: `new` is what has happened. -/
structure Moved (new : List Event) (s t : State) : Prop where
  history : t.history = new ++ s.history
  tokens : ∀ token ∈ t.tokens, (∃ old ∈ s.tokens, old.id = token.id ∧
    old.workspaceId = token.workspaceId ∧ old.userId = token.userId ∧
    (token.revokedAt = none → old.revokedAt = none)) ∨ .tokenMinted token.id ∈ new
  invitations : ∀ old ∈ s.invitations, ∃ inv ∈ t.invitations, inv.id = old.id ∧
    (old.status ≠ .pending → inv.status ≠ .pending)
  clock : s.now ≤ t.now

theorem Moved.refl (s : State) : Moved [] s s where
  history := rfl
  tokens := fun token h => Or.inl ⟨token, h, rfl, rfl, rfl, fun h => h⟩
  invitations := fun inv h => ⟨inv, h, rfl, fun h => h⟩
  clock := le_rfl

theorem Moved.trans {first second : List Event} (h : Moved first s t) (h' : Moved second t u) :
    Moved (second ++ first) s u where
  history := by rw [h'.history, h.history, List.append_assoc]
  tokens := by
    intro token htoken
    rcases h'.tokens token htoken with ⟨mid, hmid, hid, hws, huser, hlive⟩ | hnew
    · rcases h.tokens mid hmid with ⟨old, hold, hid', hws', huser', hlive'⟩ | hnew
      · exact Or.inl ⟨old, hold, hid'.trans hid, hws'.trans hws, huser'.trans huser,
          fun hnone => hlive' (hlive hnone)⟩
      · exact Or.inr (List.mem_append_right _ (hid ▸ hnew))
    · exact Or.inr (List.mem_append_left _ hnew)
  invitations := by
    intro old hold
    obtain ⟨mid, hmid, hid, hclosed⟩ := h.invitations old hold
    obtain ⟨inv, hinv, hid', hclosed'⟩ := h'.invitations mid hmid
    exact ⟨inv, hinv, hid'.trans hid, fun hne => hclosed' (hclosed hne)⟩
  clock := h.clock.trans h'.clock

def AddsOwnInvitations (held : List Lock) (s t : State) : Prop :=
  ∀ inv ∈ t.invitations, (∃ old ∈ s.invitations, old.id = inv.id) ∨ .invitation inv.id ∈ held

def KeepsInvitationIds (held : List Lock) (s t : State) : Prop :=
  ∀ inv ∈ t.invitations, .invitation inv.id ∈ held → ∃ old ∈ s.invitations, old.id = inv.id

def seatsProtocol (ι : Type) : Protocol ι State Lock Mark where
  inv := SeatsInv
  met _ _ := True
  rely _ held s t := (∃ new, Moved new s t) ∧ KeepsInvitationIds held s t
  guar _ held s t := (∃ new, Moved new s t) ∧ AddsOwnInvitations held s t
  rely_refl _ _ s := ⟨⟨[], Moved.refl s⟩, fun inv h _ => ⟨inv, h, rfl⟩⟩
  rely_trans {_ _ _ _ _} h h' := by
    obtain ⟨⟨first, hfirst⟩, hkeeps⟩ := h
    obtain ⟨⟨second, hsecond⟩, hkeeps'⟩ := h'
    refine ⟨⟨second ++ first, hfirst.trans hsecond⟩, fun inv hinv hheld => ?_⟩
    obtain ⟨mid, hmid, hid⟩ := hkeeps' inv hinv hheld
    obtain ⟨old, hold, hid'⟩ := hkeeps mid hmid (hid ▸ hheld)
    exact ⟨old, hold, hid'.trans hid⟩
  others _ _ _ hdisjoint h :=
    ⟨h.1, fun inv hinv hmine => (h.2 inv hinv).resolve_right (hdisjoint _ hmine)⟩

theorem moved_of_sees {ι : Type} {i : ι}
    (h : Under (seatsProtocol ι) i locks s t) : ∃ new, Moved new s t := by
  refine h.induct (R := fun v => ∃ new, Moved new s v) ⟨[], Moved.refl s⟩ ?_
  intro held v w _ hlater ⟨first, hfirst⟩
  obtain ⟨second, hsecond⟩ := hlater.1.1
  exact ⟨second ++ first, hfirst.trans hsecond⟩

theorem cons_split {α : Type} {e a : α} {old later earlier : List α}
    (h : e :: old = later ++ a :: earlier) :
    (later = [] ∧ a = e ∧ earlier = old) ∨ ∃ rest, later = e :: rest ∧ old = rest ++ a :: earlier := by
  cases later with
  | nil =>
    obtain ⟨rfl, rfl⟩ := List.cons.inj h
    exact Or.inl ⟨rfl, rfl, rfl⟩
  | cons b rest =>
    obtain ⟨rfl, hrest⟩ := List.cons.inj h
    exact Or.inr ⟨rest, rfl, hrest⟩

theorem length_le_of_split {α : Type} {a : α} {new old later earlier : List α}
    (h : new ++ old = later ++ a :: earlier) (hold : a ∉ old) : old.length ≤ earlier.length := by
  induction new generalizing later with
  | nil =>
    have hmem : a ∈ [] ++ old := h ▸ List.mem_append_right _ (List.mem_cons_self ..)
    exact absurd hmem hold
  | cons b new ih =>
    rcases cons_split h with ⟨_, _, hearlier⟩ | ⟨rest, _, hrest⟩
    · have hlength : earlier.length = new.length + old.length :=
        (congrArg List.length hearlier).trans List.length_append
      omega
    · exact ih hrest

theorem MintedAfter.mono {tokenId : Uuid} {events : ℕ}
    (hhistory : t.history = new ++ s.history) (h : MintedAfter s tokenId events) :
    MintedAfter t tokenId events := by
  unfold MintedAfter at h ⊢
  have hmore : t.history.length - events = new.length + (s.history.length - events) := by
    have hpos : 0 < s.history.length - events := by
      by_contra hzero
      have hnone : s.history.length - events = 0 := by omega
      rw [hnone] at h
      cases h
    rw [hhistory, List.length_append]
    omega
  rw [hmore, hhistory, List.take_length_add_append]
  exact List.mem_append_right _ h

theorem mintedAfter_of_mem {tokenId : Uuid} {events : ℕ}
    (hhistory : t.history = new ++ s.history) (hevents : events ≤ s.history.length)
    (h : .tokenMinted tokenId ∈ new) : MintedAfter t tokenId events := by
  unfold MintedAfter
  have hmore : t.history.length - events = new.length + (s.history.length - events) := by
    rw [hhistory, List.length_append]
    omega
  rw [hmore, hhistory, List.take_length_add_append]
  exact List.mem_append_left _ h

theorem Moved.split {new later earlier : List Event} (h : Moved new s t)
    (heq : t.history = later ++ e :: earlier) :
    (∃ rest, new = later ++ e :: rest ∧ earlier = rest ++ s.history) ∨
    ∃ rest, s.history = rest ++ e :: earlier ∧ later = new ++ rest := by
  rw [h.history] at heq
  rcases List.append_eq_append_iff.mp heq with ⟨rest, hlater, hold⟩ | ⟨rest, hnew, hcons⟩
  · exact Or.inr ⟨rest, hold, hlater⟩
  · cases rest with
    | nil => exact Or.inr ⟨[], hcons.symm, by rw [hnew]; simp⟩
    | cons a rest =>
      obtain ⟨rfl, hearlier⟩ := List.cons.inj hcons
      exact Or.inl ⟨rest, hnew, hearlier⟩

theorem RemovalsEnd.moved (hs : RemovalsEnd s) (h : Moved new s t)
    (hnew : ∀ workspaceId userId events, .memberRemoved workspaceId userId events ∈ new →
      events ≤ s.history.length ∧ ∀ token ∈ t.tokens, token.workspaceId = workspaceId →
        token.userId = userId → token.revokedAt = none → MintedAfter t token.id events) :
    RemovalsEnd t := by
  refine ⟨fun later earlier workspaceId userId events heq => ?events,
    fun later earlier workspaceId userId events heq token htoken hws huser hlive => ?tokens⟩
  case events =>
    rcases h.split heq with ⟨rest, hrest, rfl⟩ | ⟨rest, hrest, _⟩
    · have hevents := (hnew _ _ _ (hrest ▸ List.mem_append_right _ (List.mem_cons_self ..))).1
      rw [List.length_append]
      omega
    · exact hs.events _ _ _ _ _ hrest
  case tokens =>
    rcases h.split heq with ⟨rest, hrest, _⟩ | ⟨rest, hrest, _⟩
    · exact (hnew _ _ _ (hrest ▸ List.mem_append_right _ (List.mem_cons_self ..))).2 token htoken
        hws huser hlive
    · have hevents := hs.events _ _ _ _ _ hrest
      have hlength := congrArg List.length hrest
      rcases h.tokens token htoken with ⟨old, hold, hid, hws', huser', hlive'⟩ | hminted
      · rw [← hid]
        exact (hs.tokens _ _ _ _ _ hrest old hold (hws'.trans hws) (huser'.trans huser)
          (hlive' hlive)).mono h.history
      · refine mintedAfter_of_mem h.history ?_ hminted
        rw [List.length_append, List.length_cons] at hlength
        omega

theorem SeatsInv.moved (hs : SeatsInv s) (h : Moved new s t)
    (hone : new.length ≤ 1) (hids : (t.invitations.map (·.id)).Nodup)
    (hclosed : ∀ e ∈ new, ∀ id, Closes id e → ∃ inv ∈ t.invitations, inv.id = id ∧
      inv.status ≠ .pending)
    (hremoval : ∀ workspaceId userId events, .memberRemoved workspaceId userId events ∈ new →
      events ≤ s.history.length ∧ ∀ token ∈ t.tokens, token.workspaceId = workspaceId →
        token.userId = userId → token.revokedAt = none → MintedAfter t token.id events)
    (hseat : ∀ id userId read, .seatGiven id userId read ∈ new → read.wasOpen = true ∧
      ∀ later earlier e, s.history = later ++ e :: earlier → Closes id e →
        read.events ≤ earlier.length) : SeatsInv t := by
  refine ⟨hids, fun e he id hcloses => ?closed, hs.removals.moved h hremoval,
    fun later earlier e id userId read heq hcloses hread => ?seats, fun id userId read hread => ?opened⟩
  case closed =>
    rw [h.history] at he
    rcases List.mem_append.mp he with he | he
    · exact hclosed e he id hcloses
    · obtain ⟨old, hold, hid, hstatus⟩ := hs.closed e he id hcloses
      obtain ⟨inv, hinv, hid', hkept⟩ := h.invitations old hold
      exact ⟨inv, hinv, hid'.trans hid, hkept hstatus⟩
  case seats =>
    rcases h.split heq with ⟨rest, hrest, _⟩ | ⟨rest, hrest, rfl⟩
    · have hlength := congrArg List.length hrest
      rw [List.length_append, List.length_cons] at hlength
      have hnone : later = [] := List.length_eq_zero_iff.mp (by omega)
      rw [hnone] at hread
      cases hread
    · rcases List.mem_append.mp hread with hread | hread
      · exact (hseat _ _ _ hread).2 _ _ _ hrest hcloses
      · exact hs.seats _ _ _ _ _ _ hrest hcloses hread
  case opened =>
    rw [h.history] at hread
    rcases List.mem_append.mp hread with hread | hread
    · exact (hseat _ _ _ hread).1
    · exact hs.opened _ _ _ hread

theorem SeatsInv.quiet (hs : SeatsInv s) (h : Moved [] s t)
    (hids : (t.invitations.map (·.id)).Nodup) : SeatsInv t :=
  hs.moved h (Nat.zero_le _) hids (fun _ he => nomatch he) (fun _ _ _ he => nomatch he)
    fun _ _ _ he => nomatch he

theorem read_before (hr : SeatsInv r)
    (h : Moved new r s) (hinv : r.invitation? inv.id = some inv) (hpending : inv.status = .pending)
    {later earlier : List Event} (heq : s.history = later ++ e :: earlier)
    (hcloses : Closes inv.id e) : r.history.length ≤ earlier.length := by
  refine length_le_of_split (h.history.symm.trans heq) fun he => ?_
  obtain ⟨other, hother, hid, hstatus⟩ := hr.closed e he inv.id hcloses
  have hsame : other = inv :=
    List.inj_on_of_nodup_map hr.ids hother (invitation?_spec hinv).1 hid
  exact hstatus (hsame ▸ hpending)

section Requests

variable {ι : Type} {i : ι} {held : List Lock}

theorem keeps_untouched (hs : SeatsInv t) (hhistory : u.history = t.history)
    (htokens : u.tokens = t.tokens) (hinvitations : u.invitations = t.invitations)
    (hclock : u.now = t.now) : Keeps (seatsProtocol ι) i held t u := by
  have hmoved : Moved [] t u :=
    ⟨hhistory, fun token h => Or.inl ⟨token, htokens ▸ h, rfl, rfl, rfl, fun h => h⟩,
      fun inv h => ⟨inv, hinvitations.symm ▸ h, rfl, fun h => h⟩, hclock.ge⟩
  exact ⟨hs.quiet hmoved (hinvitations ▸ hs.ids), ⟨[], hmoved⟩,
    fun inv hinv => Or.inl ⟨inv, hinvitations ▸ hinv, rfl⟩⟩

theorem addsOwnInvitations_of_ids (h : u.invitations.map (·.id) = t.invitations.map (·.id)) :
    AddsOwnInvitations held t u := by
  intro inv hinv
  have hid : inv.id ∈ t.invitations.map (·.id) := h ▸ List.mem_map_of_mem hinv
  obtain ⟨old, hold, heq⟩ := List.mem_map.mp hid
  exact Or.inl ⟨old, hold, heq⟩

theorem keeps_invited {row : Invitation} (hs : SeatsInv t)
    (hfree : ∀ inv ∈ t.invitations, inv.id ≠ row.id) (hlock : .invitation row.id ∈ held) :
    Keeps (seatsProtocol ι) i held t (t.addInvitation row) := by
  have hids : (t.addInvitation row).invitations.map (·.id) = t.invitations.map (·.id) ++ [row.id] :=
    List.map_append ..
  have hmoved : Moved [] t (t.addInvitation row) :=
    ⟨rfl, fun token h => Or.inl ⟨token, h, rfl, rfl, rfl, fun h => h⟩,
      fun inv h => ⟨inv, List.mem_append_left _ h, rfl, fun h => h⟩, le_rfl⟩
  refine ⟨hs.quiet hmoved ?_, ⟨[], hmoved⟩, fun inv hinv => ?_⟩
  · rw [hids, List.nodup_append]
    refine ⟨hs.ids, List.nodup_singleton _, fun a ha b hb => ?_⟩
    obtain ⟨inv, hinv, rfl⟩ := List.mem_map.mp ha
    obtain rfl := List.mem_singleton.mp hb
    exact hfree inv hinv
  · rcases List.mem_append.mp hinv with hinv | hinv
    · exact Or.inl ⟨inv, hinv, rfl⟩
    · obtain rfl := List.mem_singleton.mp hinv
      exact Or.inr hlock

theorem keeps_removed {workspaceId : Uuid} {m : Member}
    {ids : List Uuid} (hs : SeatsInv t) (hmoved : Moved new r t)
    (hids : ids = (r.liveTokens workspaceId m.userId).map (·.id)) :
    Keeps (seatsProtocol ι) i held t (t.removed workspaceId m ids now r.history.length) := by
  let e : Event := .memberRemoved workspaceId m.userId r.history.length
  have hchange : Moved [e] t (t.removed workspaceId m ids now r.history.length) := by
    refine ⟨rfl, fun token htoken => Or.inl ?_, fun inv h => ⟨inv, h, rfl, fun h => h⟩, le_rfl⟩
    obtain ⟨old, hold, rfl⟩ := List.mem_map.mp htoken
    split
    · exact ⟨old, hold, rfl, rfl, rfl, fun h => nomatch h⟩
    · exact ⟨old, hold, rfl, rfl, rfl, fun h => h⟩
  refine ⟨hs.moved hchange le_rfl hs.ids (fun e' he' id hcloses => ?closed)
    (fun ws user events he' => ?removal) (fun id user read he' => ?seat), ⟨[e], hchange⟩,
    addsOwnInvitations_of_ids rfl⟩
  case closed =>
    obtain rfl := List.mem_singleton.mp he'
    cases hcloses
  case removal =>
    obtain ⟨rfl, rfl, rfl⟩ := Event.memberRemoved.inj (List.mem_singleton.mp he')
    have hlength := congrArg List.length hmoved.history
    rw [List.length_append] at hlength
    refine ⟨by omega, fun token htoken hws huser hlive => ?_⟩
    obtain ⟨stored, hstored, rfl⟩ := List.mem_map.mp htoken
    split at hlive
    next => cases hlive
    next hkept =>
      rw [if_neg hkept] at hws huser ⊢
      rcases hmoved.tokens stored hstored with ⟨old, hold, hid, hws', huser', hlive'⟩ | hminted
      · refine absurd ⟨?_, hlive⟩ hkept
        rw [hids, ← hid]
        refine List.mem_map_of_mem (List.mem_filter.mpr ⟨hold, decide_eq_true ?_⟩)
        exact ⟨hws'.trans hws, huser'.trans huser, hlive' hlive⟩
      · exact (mintedAfter_of_mem hmoved.history le_rfl hminted).mono hchange.history
  case seat =>
    have hne : Event.seatGiven id user read = .memberRemoved workspaceId m.userId r.history.length :=
      List.mem_singleton.mp he'
    cases hne

/-- The event is noted, and no token or invitation has changed. -/
structure Noted (e : Event) (s t : State) : Prop where
  history : t.history = e :: s.history
  tokens : t.tokens = s.tokens
  invitations : t.invitations = s.invitations
  clock : t.now = s.now

theorem noted_record (e : Event) : Noted e t (t.record e) := ⟨rfl, rfl, rfl, rfl⟩

theorem Noted.patched (h : Noted e s t) (m new : Member) :
    Noted e s (t.patched m new) := by
  rw [patched_eq]
  exact ⟨h.history, h.tokens, h.invitations, h.clock⟩

theorem Noted.moved (h : Noted e s t) : Moved [e] s t where
  history := h.history
  tokens := fun token htoken => Or.inl ⟨token, h.tokens ▸ htoken, rfl, rfl, rfl, fun h => h⟩
  invitations := fun inv hinv => ⟨inv, h.invitations.symm ▸ hinv, rfl, fun h => h⟩
  clock := h.clock.ge

theorem Noted.closing {loaded new : Invitation} (h : Noted e s t)
    (hnew : new.status ≠ .pending) : Moved [e] s (t.updateInvitation loaded new) where
  history := h.history
  tokens := h.moved.tokens
  invitations := by
    intro old hold
    rw [← h.invitations] at hold
    obtain ⟨inv, hinv, hid, hclosed⟩ := closed_updateInvitation hnew hold
    exact ⟨inv, hinv, hid, fun hne => hclosed (Or.inl hne)⟩
  clock := h.clock.ge

theorem keeps_closing {id : Uuid} (hs : SeatsInv t) (hchange : Moved [e] t u)
    (hids : u.invitations.map (·.id) = t.invitations.map (·.id))
    (hcloses : ∀ other, Closes other e → other = id)
    (hclosed : ∃ inv ∈ u.invitations, inv.id = id ∧ inv.status ≠ .pending)
    (hremoval : ∀ ws user events, e ≠ .memberRemoved ws user events)
    (hseat : ∀ user read, e = .seatGiven id user read → read.wasOpen = true ∧
      ∀ later earlier e, t.history = later ++ e :: earlier → Closes id e →
        read.events ≤ earlier.length) : Keeps (seatsProtocol ι) i held t u := by
  refine ⟨hs.moved hchange le_rfl (hids ▸ hs.ids) (fun e' he' other hother => ?_)
    (fun ws user events he' => ?_) (fun other user read he' => ?_), ⟨[e], hchange⟩,
    addsOwnInvitations_of_ids hids⟩
  · obtain rfl := List.mem_singleton.mp he'
    rw [hcloses other hother]
    exact hclosed
  · exact absurd (List.mem_singleton.mp he').symm (hremoval ws user events)
  · have heq := (List.mem_singleton.mp he').symm
    have hsame : other = id := hcloses other (heq ▸ rfl)
    subst hsame
    exact hseat user read heq

theorem keeps_withdrawn (hs : SeatsInv t)
    (hr : Under (seatsProtocol ι) i locks r t) (hinv : inv ∈ r.invitations)
    (hpending : inv.status = .pending) : Keeps (seatsProtocol ι) i held t (t.withdrawn inv) := by
  obtain ⟨_, hmoved⟩ := moved_of_sees hr
  obtain ⟨stored, hstored, hid, _⟩ := hmoved.invitations inv hinv
  have hnew : ({ inv with status := .revoked } : Invitation).status ≠ .pending := fun h => nomatch h
  have hchange : Moved [.invitationRevoked inv.id] t (t.withdrawn inv) :=
    (noted_record _).closing hnew
  refine keeps_closing hs hchange (ids_updateInvitation _ _) (fun _ h => h.symm) ?_
    (fun _ _ _ h => nomatch h) fun _ _ h => nomatch h
  obtain ⟨row, hrow, hrowId, hclosed⟩ := closed_updateInvitation hnew hstored
  exact ⟨row, hrow, hrowId.trans hid, hclosed (Or.inr ⟨hid, hpending ▸ hnew⟩)⟩

theorem seat_of_read (hopen : ReadOpen (seatsProtocol ι) i s inv r)
    (hpending : inv.status = .pending) (hr : Under (seatsProtocol ι) i held r t) :
    (r.read inv.id).wasOpen = true ∧ ∀ later earlier e, t.history = later ++ e :: earlier →
      Closes inv.id e → (r.read inv.id).events ≤ earlier.length := by
  obtain ⟨_, hinv, hrow, u, hu, hunexpired⟩ := hopen
  obtain ⟨_, hmoved⟩ := moved_of_sees hr
  obtain ⟨_, hclock⟩ := moved_of_sees hu
  refine ⟨List.any_eq_true.mpr ⟨inv, (invitation?_spec hrow).1, ?_⟩, fun later earlier e heq hcloses =>
    read_before hinv hmoved hrow hpending heq hcloses⟩
  exact decide_eq_true ⟨rfl, hpending, hclock.clock.trans_lt hunexpired⟩

theorem noted_seated {existing : Option Member} {row : Member} (h : Noted e s t) :
    Noted e s (t.seated existing row) := by
  cases existing with
  | none => exact ⟨h.history, h.tokens, h.invitations, h.clock⟩
  | some m => exact h.patched _ _

theorem noted_reseated {seat : Option Member} {role : Role} (h : Noted e s t) :
    Noted e s (t.reseated seat role) := by
  cases seat with
  | none => exact h
  | some m => exact h.patched _ _

theorem taken_not_pending (inv : Invitation) (now : Timestamp) (userId : Uuid) :
    (inv.taken now userId).status ≠ .pending := fun h => nomatch h

theorem keeps_accepted {row : Member} {existing : Option Member}
    (hs : SeatsInv t) (hopen : ReadOpen (seatsProtocol ι) i s inv r)
    (hpending : inv.status = .pending) (hr : Sees (seatsProtocol ι) i r t) :
    Keeps (seatsProtocol ι) i held t (t.accepted inv (r.read inv.id) existing row now) := by
  have hread := seat_of_read hopen hpending hr
  have hnoted : Noted (.seatGiven inv.id row.userId (r.read inv.id)) t
      ((t.recordSeat inv.id row.userId (r.read inv.id)).seated existing row) :=
    noted_seated (noted_record _)
  have hnew := taken_not_pending inv now row.userId
  obtain ⟨_, hmoved⟩ := moved_of_sees hr
  obtain ⟨stored, hstored, hid, _⟩ := hmoved.invitations inv (invitation?_spec hopen.2.2.1).1
  refine keeps_closing hs (hnoted.closing hnew) ?_ (fun _ h => h.symm) ?_
    (fun _ _ _ h => nomatch h) fun user read heq => ?_
  · rw [State.accepted, ids_updateInvitation, hnoted.invitations]
  · rw [← hnoted.invitations] at hstored
    obtain ⟨other, hother, hotherId, hclosed⟩ := closed_updateInvitation hnew hstored
    exact ⟨other, hother, hotherId.trans hid, hclosed (Or.inr ⟨hid, hpending ▸ hnew⟩)⟩
  · obtain ⟨_, _, rfl⟩ := Event.seatGiven.inj heq
    exact hread

theorem keeps_collided {r v : State} {userId : Uuid} {seat : Option Member}
    {fresh : Option Invitation} (hs : SeatsInv t)
    (hopen : ReadOpen (seatsProtocol ι) i s inv r) (hpending : inv.status = .pending)
    (hv : Sees (seatsProtocol ι) i r v) (hfresh : v.invitation? inv.id = fresh)
    (ht : Sees (seatsProtocol ι) i v t) :
    Keeps (seatsProtocol ι) i held t
      (t.collided inv (r.read inv.id) userId seat fresh now) := by
  have hread := seat_of_read hopen hpending (hv.under ht)
  have hnoted : Noted (.seatGiven inv.id userId (r.read inv.id)) t
      ((t.recordSeat inv.id userId (r.read inv.id)).reseated seat inv.role) :=
    noted_reseated (noted_record _)
  have hseat : ∀ user read, Event.seatGiven inv.id userId (r.read inv.id) =
      .seatGiven inv.id user read → read.wasOpen = true ∧ ∀ later earlier e,
        t.history = later ++ e :: earlier → Closes inv.id e → read.events ≤ earlier.length := by
    intro user read heq
    obtain ⟨_, _, rfl⟩ := Event.seatGiven.inj heq
    exact hread
  -- The row is still there when the session reads it again.
  obtain ⟨_, hmoved⟩ := moved_of_sees hv
  obtain ⟨mid, hmid, hmidId, _⟩ := hmoved.invitations inv (invitation?_spec hopen.2.2.1).1
  obtain ⟨row, hrow⟩ : ∃ row, fresh = some row := by
    rw [← Option.isSome_iff_exists, ← hfresh]
    exact List.find?_isSome.mpr ⟨mid, hmid, decide_eq_true hmidId⟩
  subst hrow
  obtain ⟨hmem, hid⟩ := invitation?_spec hfresh
  obtain ⟨_, hmoved'⟩ := moved_of_sees ht
  obtain ⟨stored, hstored, hstoredId, hkept⟩ := hmoved'.invitations row hmem
  unfold State.collided State.retaken
  by_cases haccepted : row.status = .accepted
  · rw [Option.filter_some, if_neg (by simpa using haccepted)]
    refine keeps_closing hs hnoted.moved (congrArg _ hnoted.invitations) (fun _ h => h.symm) ?_
      (fun _ _ _ h => nomatch h) hseat
    exact ⟨stored, hnoted.invitations.symm ▸ hstored, hstoredId.trans hid,
      hkept (haccepted ▸ fun h => nomatch h)⟩
  · rw [Option.filter_some, if_pos (by simpa using haccepted)]
    have hnew := taken_not_pending row now userId
    refine keeps_closing hs (hnoted.closing hnew) ?_ (fun _ h => h.symm) ?_
      (fun _ _ _ h => nomatch h) hseat
    · rw [Option.elim_some, ids_updateInvitation, hnoted.invitations]
    · rw [← hnoted.invitations] at hstored
      obtain ⟨other, hother, hotherId, hclosed⟩ := closed_updateInvitation hnew hstored
      exact ⟨other, hother, hotherId.trans (hstoredId.trans hid),
        hclosed (Or.inr ⟨hstoredId, Ne.symm haccepted⟩)⟩

theorem keeps_minted {row : ApiToken} (hs : SeatsInv t) :
    Keeps (seatsProtocol ι) i held t ((t.addToken row).record (.tokenMinted row.id)) := by
  have hchange : Moved [.tokenMinted row.id] t
      ((t.addToken row).record (.tokenMinted row.id)) := by
    refine ⟨rfl, fun token htoken => ?_, fun inv h => ⟨inv, h, rfl, fun h => h⟩, le_rfl⟩
    rcases List.mem_append.mp htoken with htoken | htoken
    · exact Or.inl ⟨token, htoken, rfl, rfl, rfl, fun h => h⟩
    · obtain rfl := List.mem_singleton.mp htoken
      exact Or.inr (List.mem_singleton_self _)
  refine ⟨hs.moved hchange le_rfl hs.ids (fun e he id hcloses => ?_) (fun _ _ _ he => ?_)
    (fun _ _ _ he => ?_), ⟨_, hchange⟩, addsOwnInvitations_of_ids rfl⟩
  · obtain rfl := List.mem_singleton.mp he
    cases hcloses
  · cases List.mem_singleton.mp he
  · cases List.mem_singleton.mp he

theorem free_invitation {id : Uuid} (hlock : .invitation id ∈ locks)
    (hfree : ∀ inv ∈ s.invitations, inv.id ≠ id) (h : Later (seatsProtocol ι) i locks s t) :
    ∀ inv ∈ t.invitations, inv.id ≠ id := by
  intro inv hinv hid
  obtain ⟨old, hold, heq⟩ := h.1.2 inv hinv (hid.symm ▸ hlock)
  exact hfree old hold (heq.trans hid)

theorem wp_seats (env : Env) (r : Request) :
    wp (seatsProtocol ι) i (r.prog env) (fun _ _ _ _ => True) id [] s := by
  cases r with
  | createWorkspace userId payload workspaceId memberId =>
    exact wp_createWorkspace fun _ _ _ _ _ _ _ _ _ _ _ _ _ _ t ht _ =>
      keeps_untouched ht.2 rfl rfl rfl rfl
  | patchMember userId wanted memberId payload =>
    refine wp_patchMember fun _ _ _ m new _ _ _ _ _ _ _ _ t _ hinv _ => ?_
    rw [patched_eq]
    exact keeps_untouched hinv rfl rfl rfl rfl
  | removeMember userId wanted memberId =>
    refine wp_removeMember fun _ _ _ _ _ _ _ _ _ _ r _ _ ids hids _ _ _ t ht hinv _ => ?_
    obtain ⟨_, hmoved⟩ := moved_of_sees ht
    exact keeps_removed hinv hmoved hids
  | createInvitation userId wanted payload invitationId plaintext =>
    exact wp_createInvitation fun _ _ _ _ _ _ _ _ _ _ _ _ _ _ hlock _ _ _ hfree t ht _ =>
      keeps_invited ht.2 (free_invitation hlock (fun inv hinv => (hfree inv hinv).1) ht) hlock
  | revokeInvitation userId wanted invitationId =>
    exact wp_revokeInvitation fun _ _ hpending _ _ hmem _ _ _ t ht hinv _ =>
      keeps_withdrawn hinv ht hmem hpending
  | acceptInvitation userId token memberId =>
    refine wp_acceptInvitation
      (fun user inv hbasis r hopen existing _ _ row hrow more _ _ _ _ t ht _ hinv _ => ?_)
      (fun user inv hbasis r hopen seat fresh now _ v hv _ hfresh more _ _ t ht hinv _ => ?_)
    · subst hrow
      exact keeps_accepted hinv hopen hbasis.pending ht
    · exact keeps_collided hinv hopen hbasis.pending hv hfresh ht
  | createToken userId wanted payload tokenId secret =>
    exact wp_createToken fun _ _ _ _ _ _ _ _ _ _ _ t ht _ => keeps_minted ht.2

end Requests

theorem seatsInv_start (hids : (s.invitations.map (·.id)).Nodup) (hhistory : s.history = []) :
    SeatsInv s := by
  have hnone : ∀ later earlier e, s.history ≠ later ++ e :: earlier := by
    intro later earlier e heq
    rw [hhistory] at heq
    simp at heq
  refine ⟨hids, fun e he => ?_, ⟨fun _ _ _ _ _ heq => absurd heq (hnone _ _ _),
    fun _ _ _ _ _ heq => absurd heq (hnone _ _ _)⟩, fun _ _ _ _ _ _ heq => absurd heq (hnone _ _ _),
    fun _ _ _ he => ?_⟩
  · rw [hhistory] at he
    cases he
  · rw [hhistory] at he
    cases he

theorem seatsEnd_of_inv (hs : SeatsInv s) (env : Env) : SeatsEnd env s where
  tokens := by
    intro later earlier workspaceId userId events heq tokenId secret user token hlive hws huser
    obtain ⟨found, hfound, hmap⟩ := Option.bind_eq_some_iff.mp hlive
    obtain ⟨_, _, hpair⟩ := Option.map_eq_some_iff.mp hmap
    obtain ⟨rfl, rfl⟩ := Prod.mk.inj hpair
    obtain ⟨hmem, hchecked⟩ := Option.filter_eq_some_iff.mp hfound
    simp only [decide_eq_true_eq] at hchecked
    exact hs.removals.tokens _ _ _ _ _ heq found (List.mem_of_find?_eq_some hmem) hws huser
      hchecked.2.1
  revoked := fun _ _ _ heq _ _ hread => hs.seats _ _ _ _ _ _ heq rfl hread
  accepted := fun _ _ _ _ _ heq _ _ hread => hs.seats _ _ _ _ _ _ heq rfl hread
  opened := hs.opened

/-- In every committed state of every run: a token that a removal could see has ended with
the seat, and by a closed invitation only who had read it open before still takes a seat. -/
theorem seatsEnd_of_run {ι : Type} [Fintype ι] [DecidableEq ι] {requests : ι → Request}
    {acts : List (Act ι ℕ)} {w : World ι State Lock Mark Refusal}
    (hids : (s.invitations.map (·.id)).Nodup) (hhistory : s.history = [])
    (hrun : Machine.run (World.step tick) (start s fun i => (requests i).prog env) acts = some w) :
    SeatsEnd env w.committed := by
  have hinv := seatsInv_start hids hhistory
  have henv : Bears (seatsProtocol ι) tick := by
    intro elapsed s hs
    have hmoved : Moved [] s (tick elapsed s) :=
      ⟨rfl, fun token h => Or.inl ⟨token, h, rfl, rfl, rfl, fun h => h⟩,
        fun inv h => ⟨inv, h, rfl, fun h => h⟩, Nat.le_add_right ..⟩
    exact ⟨hs.quiet hmoved hs.ids, fun j held => ⟨⟨[], hmoved⟩, fun inv h _ => ⟨inv, h, rfl⟩⟩⟩
  exact seatsEnd_of_inv (inv_of_any_run henv (fun _ _ => trivial) hinv
    (fun i => wp_seats env (requests i)) hrun) env

/-- Ann's workspace, where Bob is a member. -/
def sampleSeats : State :=
  { sampleStart with
    workspaces := [⟨10, "Lab", .organization, 1, "EUR"⟩]
    members := [⟨100, 10, 1, .owner, .active⟩, ⟨101, 10, 2, .member, .active⟩] }

/-- Bob mints a token, Ann removes him and invites him again, and he accepts. -/
def sampleReturn : Fin 4 → Request
  | 0 => .createToken 2 none ⟨"ci", false, none⟩ 30 "secret"
  | 1 => .removeMember 1 none 101
  | 2 => .createInvitation 1 none ⟨"bob@example.com", .member⟩ 21 "second"
  | 3 => .acceptInvitation 2 (some (21, "second")) 102

def sampleReturnActs : List (Act (Fin 4) ℕ) :=
  List.replicate 11 (.advance 0) ++ List.replicate 14 (.advance 1) ++
    List.replicate 14 (.advance 2) ++ List.replicate 16 (.advance 3)

theorem seatsEnd_of_run_sample :
    ∃ w, Machine.run (World.step tick) (start sampleSeats fun i => (sampleReturn i).prog sampleEnv)
      sampleReturnActs = some w ∧ (w.committed.activeSeat? 10 2).isSome = true ∧
      w.committed.tokens.map (·.id) = [30] ∧ SeatsEnd sampleEnv w.committed := by
  have hran : (Machine.run (World.step tick)
      (start sampleSeats fun i => (sampleReturn i).prog sampleEnv) sampleReturnActs).map (fun w =>
        ((w.committed.activeSeat? 10 2).isSome, w.committed.tokens.map (·.id))) =
      some (true, [30]) := by
    decide +kernel
  obtain ⟨w, hrun, hpair⟩ := Option.map_eq_some_iff.mp hran
  obtain ⟨hseat, htokens⟩ := Prod.mk.inj hpair
  exact ⟨w, hrun, hseat, htokens, seatsEnd_of_run (by decide) rfl hrun⟩

/-- The rules without regard to what a request has read before: whatever was requested
before the removal has ended, a revoked invitation gives no seat, and each gives one. -/
structure SeatsEndAtOnce (env : Env) (s : State) : Prop where
  tokens : ∀ later earlier workspaceId userId events,
    s.history = later ++ .memberRemoved workspaceId userId events :: earlier →
    ∀ tokenId secret user token, resolveLiveToken env s tokenId secret = some (user, token) →
    token.workspaceId = workspaceId → token.userId = userId → earlier.length < token.requested
  revoked : ∀ later earlier id, s.history = later ++ .invitationRevoked id :: earlier →
    ∀ userId read, .seatGiven id userId read ∉ later
  accepted : ∀ later earlier id userId read, s.history = later ++ .seatGiven id userId read :: earlier →
    ∀ other read', .seatGiven id other read' ∉ later
  opened : ∀ id userId read, .seatGiven id userId read ∈ s.history → read.wasOpen = true

def sampleInvited : State :=
  { sampleStart with
    workspaces := [⟨10, "Lab", .organization, 1, "EUR"⟩]
    members := [⟨100, 10, 1, .owner, .active⟩]
    invitations := [⟨20, 10, "bob@example.com", .member, some "hmac of first", .pending, some 1,
      14 * microsPerDay, none, none⟩] }

def sampleTwice : Fin 2 → Request
  | 0 => .acceptInvitation 2 (some (20, "first")) 101
  | 1 => .acceptInvitation 2 (some (20, "first")) 102

/-- The first has found no membership when the second adds one: its flush meets the unique
key, and it accepts again. -/
theorem invitation_accepted_twice :
    ¬ ∀ (s : State) (requests : Fin 2 → Request) (acts : List (Act (Fin 2) ℕ))
      (w : World (Fin 2) State Lock Mark Refusal),
      (s.invitations.map (·.id)).Nodup → s.history = [] →
      Machine.run (World.step tick) (start s fun i => (requests i).prog sampleEnv) acts = some w →
        SeatsEndAtOnce sampleEnv w.committed := by
  intro h
  have hran : (Machine.run (World.step tick)
      (start sampleInvited fun i => (sampleTwice i).prog sampleEnv)
      (List.replicate 4 (.advance 0) ++ List.replicate 16 (.advance 1) ++
        List.replicate 12 (.advance 0))).map (·.committed.history) =
      some [.seatGiven 20 2 ⟨0, true⟩, .seatGiven 20 2 ⟨0, true⟩] := by
    decide +kernel
  obtain ⟨w, hrun, htwice⟩ := Option.map_eq_some_iff.mp hran
  have hrules := h sampleInvited _ _ w (by decide) rfl hrun
  exact hrules.accepted [.seatGiven 20 2 ⟨0, true⟩] [] 20 2 ⟨0, true⟩ htwice 2 ⟨0, true⟩
    (List.mem_singleton_self _)

end StockManager.Tenancy
