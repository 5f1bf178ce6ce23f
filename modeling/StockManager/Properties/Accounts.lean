import StockManager.Effects.AuthWrites

/-! # What opens an account (core/auth.py, api/routes/auth.py)

Whatever sign-ups, sign-ins and resets overlap: addresses stay distinct, a reset link changes a
password at most once and only of the account it was sent to, and every stored hash goes back to
a password chosen at sign-up or with such a link. -/

namespace StockManager.Auth

open Sessions

variable {draws : Draws} {user loaded : User} {row : PasswordResetRequest}
  {hash email password : String} {Q : Post State Lock Unit} {userId : Uuid} {usedAt : Timestamp}
  {origin : Origin} {payload : LoginIn}
variable {x : Write} {requestId : Uuid} {found : Option User} {rehash : Option String}

/-- `verify_password_with_rehash` finds the password valid. -/
def Accepts (env : Env) (hash password : String) : Prop :=
  env.argonVerify hash (env.passwordMaterial password) ∨ env.argonVerify hash password

def Hashes (env : Env) (password hash : String) : Prop :=
  ∃ salt, hash = env.hashPassword salt password

def Origin.resetId : Origin → Option Uuid
  | .reset requestId _ => some requestId
  | _ => none

def Justified (env : Env) (older : List PasswordWrite) (w : PasswordWrite) : Prop :=
  match w.origin with
  | .signedUp => ∃ password, Hashes env password w.passwordHash
  | .reset _ password => Hashes env password w.passwordHash
  | .rehashed accepted password => Hashes env password w.passwordHash ∧
    Accepts env accepted password ∧ ∃ v ∈ older, v.userId = w.userId ∧ v.passwordHash = accepted

inductive History (env : Env) : List PasswordWrite → Prop
  | nil : History env []
  | cons {w : PasswordWrite} {older : List PasswordWrite} : Justified env older w →
    History env older → History env (w :: older)

/-- The account whose address, up to case, the request named -/
def SentTo (env : Env) (users : List User) (r : PasswordResetRequest) : Prop :=
  ∃ u ∈ users, r.userId = some u.id ∧ ∃ email, r.emailHash = env.hashEmail (env.lower email) ∧
    env.sqlLower u.email = env.lower email

structure Accounts (env : Env) (s : State) : Prop where
  ids : (s.users.map (·.id)).Nodup
  emails : (s.users.map (·.email)).Nodup
  requestIds : (s.resetRequests.map (·.id)).Nodup
  made : ∀ p ∈ s.pending, ∃ password, Hashes env password p.passwordHash
  sentTo : ∀ r ∈ s.resetRequests, SentTo env s.users r
  history : History env s.writes
  stored : ∀ u ∈ s.users, ∃ w ∈ s.writes, w.userId = u.id ∧ w.passwordHash = u.passwordHash
  once : (s.writes.filterMap (·.origin.resetId)).Nodup
  used : ∀ w ∈ s.writes, ∀ r ∈ s.resetRequests, w.origin.resetId = some r.id →
    r.usedAt ≠ none ∧ r.userId = some w.userId

/-- What is locked as `kept` says is left as it was; accounts and past hashes always are. -/
structure Leaves (kept : Lock → Prop) (s t : State) : Prop where
  users : ∀ u ∈ s.users, ∃ v ∈ t.users, v.id = u.id ∧ v.email = u.email
  writes : s.writes <:+ t.writes
  ids : ∀ id, kept (.user id) → id ∈ t.users.map (·.id) → id ∈ s.users.map (·.id)
  emails : ∀ email, kept (.userEmail email) → email ∈ t.users.map (·.email) →
    email ∈ s.users.map (·.email)
  requests : ∀ r ∈ t.resetRequests, kept (.resetRequest r.id) → r ∈ s.resetRequests
  resets : ∀ w ∈ t.writes, ∀ id, w.origin.resetId = some id → kept (.resetRequest id) →
    w ∈ s.writes

namespace Leaves

variable {kept : Lock → Prop} {s t u : State}

theorem refl (kept : Lock → Prop) (s : State) : Leaves kept s s :=
  ⟨fun u hu => ⟨u, hu, rfl, rfl⟩, List.suffix_refl _, fun _ _ h => h, fun _ _ h => h,
    fun _ h _ => h, fun _ h _ _ _ => h⟩

theorem trans (h : Leaves kept s t) (h' : Leaves kept t u) : Leaves kept s u where
  users a ha := by
    obtain ⟨b, hb, hid, hemail⟩ := h.users a ha
    obtain ⟨c, hc, hid', hemail'⟩ := h'.users b hb
    exact ⟨c, hc, hid'.trans hid, hemail'.trans hemail⟩
  writes := h.writes.trans h'.writes
  ids id hid hu := h.ids id hid (h'.ids id hid hu)
  emails email hemail hu := h.emails email hemail (h'.emails email hemail hu)
  requests r hr hid := h.requests r (h'.requests r hr hid) hid
  resets w hw id hid hkept := h.resets w (h'.resets w hw id hid hkept) id hid hkept

theorem mono {kept' : Lock → Prop} (hk : ∀ l, kept' l → kept l) (h : Leaves kept s t) :
    Leaves kept' s t :=
  ⟨h.users, h.writes, fun id hid => h.ids id (hk _ hid), fun email he => h.emails email (hk _ he),
    fun r hr hid => h.requests r hr (hk _ hid), fun w hw id hid hkept =>
      h.resets w hw id hid (hk _ hkept)⟩

end Leaves

/-- uuid4 gives a reset request no id that another one had before. -/
def FreshIds : Mark → State → Prop
  | .plain, _ => True
  | .requested id, s => ∀ w ∈ s.writes, w.origin.resetId ≠ some id

def accounts (ι : Type) (env : Env) : Protocol ι State Lock Mark where
  inv := Accounts env
  met := FreshIds
  rely _ held := Leaves (· ∈ held)
  guar _ held := Leaves (· ∉ held)
  rely_refl _ _ s := Leaves.refl _ s
  rely_trans := Leaves.trans
  others _ _ _ hdisjoint h := h.mono fun l hl => hdisjoint l hl

variable {env : Env} {ι : Type} {i : ι} {s t : State} {held : List Lock}

/-! ### Writes that change no account -/

def Write.Plain : Write → Prop
  | addSession _ => True
  | addFailure _ => True
  | deleteSessions _ => True
  | deleteFailures _ => True
  | deletePending _ => True
  | deleteResetRequests _ => True
  | signedIn _ _ => True
  | verified _ _ => True
  | _ => False

def User.account (u : User) : Uuid × String × String := (u.id, u.email, u.passwordHash)

theorem updateUser_map {α : Type} (f : User → α) (id : Uuid) (g : User → User)
    (hf : ∀ u, f (g u) = f u) : (s.updateUser id g).users.map f = s.users.map f := by
  show List.map f (s.users.map _) = _
  rw [List.map_map]
  refine List.map_congr_left fun u _ => ?_
  simp only [Function.comp_apply]
  split
  · exact hf u
  · rfl

structure SameAccounts (s t : State) : Prop where
  users : t.users.map User.account = s.users.map User.account
  writes : t.writes = s.writes
  requests : t.resetRequests.Sublist s.resetRequests
  pending : ∀ p ∈ t.pending, ∃ q ∈ s.pending, q.passwordHash = p.passwordHash

namespace SameAccounts

theorem of_apply (hx : x.Plain) (s : State) : SameAccounts s (x.apply s) := by
  have hsame : ∀ p ∈ s.pending, ∃ q ∈ s.pending, q.passwordHash = p.passwordHash :=
    fun p hp => ⟨p, hp, rfl⟩
  cases x with
  | deletePending ids =>
    exact ⟨rfl, rfl, List.Sublist.refl _, fun p hp => ⟨p, List.mem_of_mem_filter hp, rfl⟩⟩
  | deleteResetRequests ids => exact ⟨rfl, rfl, List.filter_sublist, hsame⟩
  | signedIn userId lastLoginAt =>
    exact ⟨updateUser_map User.account _ _ fun _ => rfl, rfl, List.Sublist.refl _, hsame⟩
  | verified pendingId verifiedAt =>
    refine ⟨rfl, rfl, List.Sublist.refl _, fun p hp => ?_⟩
    obtain ⟨q, hq, rfl⟩ := List.mem_map.mp hp
    refine ⟨q, hq, ?_⟩
    split <;> rfl
  | addSession row => exact ⟨rfl, rfl, List.Sublist.refl _, hsame⟩
  | addFailure row => exact ⟨rfl, rfl, List.Sublist.refl _, hsame⟩
  | deleteSessions hashes => exact ⟨rfl, rfl, List.Sublist.refl _, hsame⟩
  | deleteFailures ids => exact ⟨rfl, rfl, List.Sublist.refl _, hsame⟩
  | _ => exact False.elim hx

theorem map_users {α : Type} (h : SameAccounts s t) (f : Uuid × String × String → α) :
    t.users.map (fun u => f u.account) = s.users.map (fun u => f u.account) := by
  have hmap := congrArg (List.map f) h.users
  rwa [List.map_map, List.map_map] at hmap

theorem mem_users (h : SameAccounts s t) {u : User} (hu : u ∈ t.users) :
    ∃ v ∈ s.users, v.account = u.account :=
  List.mem_map.mp (h.users ▸ List.mem_map_of_mem hu)

theorem accounts (h : SameAccounts s t) (hs : Accounts env s) : Accounts env t where
  ids := (h.map_users (·.1)) ▸ hs.ids
  emails := (h.map_users (·.2.1)) ▸ hs.emails
  requestIds := hs.requestIds.sublist (h.requests.map _)
  made p hp := by
    obtain ⟨q, hq, hhash⟩ := h.pending p hp
    exact hhash ▸ hs.made q hq
  sentTo r hr := by
    obtain ⟨u, hu, hid, email, hhash, hemail⟩ := hs.sentTo r (h.requests.subset hr)
    obtain ⟨v, hv, hvu⟩ := List.mem_map.mp (h.users.symm ▸ List.mem_map_of_mem hu)
    have hvid : v.id = u.id := congrArg (·.1) hvu
    have hvemail : v.email = u.email := congrArg (·.2.1) hvu
    exact ⟨v, hv, hvid ▸ hid, email, hhash, hvemail ▸ hemail⟩
  history := h.writes ▸ hs.history
  stored u hu := by
    obtain ⟨v, hv, hvu⟩ := h.mem_users hu
    obtain ⟨w, hw, hid, hhash⟩ := hs.stored v hv
    exact ⟨w, h.writes ▸ hw, hid.trans (congrArg (·.1) hvu), hhash.trans (congrArg (·.2.2) hvu)⟩
  once := h.writes ▸ hs.once
  used w hw r hr := hs.used w (h.writes ▸ hw) r (h.requests.subset hr)

theorem leaves (h : SameAccounts s t) (kept : Lock → Prop) : Leaves kept s t where
  users u hu := by
    obtain ⟨v, hv, hvu⟩ := List.mem_map.mp (h.users.symm ▸ List.mem_map_of_mem hu)
    exact ⟨v, hv, congrArg (·.1) hvu, congrArg (·.2.1) hvu⟩
  writes := h.writes ▸ List.suffix_refl _
  ids id _ ht := (h.map_users (·.1)) ▸ ht
  emails email _ ht := (h.map_users (·.2.1)) ▸ ht
  requests r hr _ := h.requests.subset hr
  resets w hw _ _ _ := h.writes ▸ hw

theorem of_made {own : Write → Prop} (hown : ∀ x, own x → x.Plain) (h : Made own s t)
    (hs : Accounts env s) : Accounts env t ∧ ∀ kept, Leaves kept s t :=
  h.kept (R := fun s t => Accounts env s → Accounts env t ∧ ∀ kept, Leaves kept s t)
    (fun hs => ⟨hs, fun kept => Leaves.refl kept _⟩)
    (fun t x ht hx hs =>
      ⟨(of_apply (hown x hx) t).accounts (ht hs).1,
        fun kept => ((ht hs).2 kept).trans ((of_apply (hown x hx) t).leaves kept)⟩) hs

end SameAccounts

theorem wp_of_plain {x : AuthProg Unit} {own : Write → Prop} {pending : State → State}
    (hown : ∀ x, own x → x.Plain) (h : changes (Made own) x (fun _ _ => True) pending) :
    wp (accounts ι env) i x (fun _ _ _ _ => True) pending held s :=
  wp_of_changes (fun _ _ _ hs hst =>
    ⟨(SameAccounts.of_made hown hst hs).1, (SameAccounts.of_made hown hst hs).2 _⟩) h

/-! ### The other writes -/

section Writes

variable {kept : Lock → Prop}

theorem SentTo.mono {users users' : List User} {r : PasswordResetRequest}
    (h : ∀ u ∈ users, ∃ v ∈ users', v.id = u.id ∧ v.email = u.email) (hr : SentTo env users r) :
    SentTo env users' r := by
  obtain ⟨u, hu, hid, email, hhash, hemail⟩ := hr
  obtain ⟨v, hv, hvid, hvemail⟩ := h u hu
  exact ⟨v, hv, hvid ▸ hid, email, hhash, hvemail ▸ hemail⟩

theorem leaves_addUser {row : User} (hid : ¬kept (.user row.id))
    (hemail : ¬kept (.userEmail row.email)) : Leaves kept s (s.addUser row) where
  users u hu := ⟨u, List.mem_append_left _ hu, rfl, rfl⟩
  writes := List.suffix_cons _ _
  ids id hkept ht := by
    rcases List.mem_append.mp (List.map_append ▸ ht) with h | h
    · exact h
    · obtain rfl := List.mem_singleton.mp h
      exact absurd hkept hid
  emails email hkept ht := by
    rcases List.mem_append.mp (List.map_append ▸ ht) with h | h
    · exact h
    · obtain rfl := List.mem_singleton.mp h
      exact absurd hkept hemail
  requests r hr _ := hr
  resets w hw id hid _ := by
    rcases List.mem_cons.mp hw with rfl | hw
    · cases hid
    · exact hw

theorem accounts_addUser {row : User} (hs : Accounts env s) (hid : row.id ∉ s.users.map (·.id))
    (hemail : row.email ∉ s.users.map (·.email))
    (hhash : ∃ password, Hashes env password row.passwordHash) : Accounts env (s.addUser row) where
  ids := by
    show ((s.users ++ [row]).map (·.id)).Nodup
    rw [List.map_append]
    exact List.nodup_append_comm.mp (List.nodup_cons.mpr ⟨hid, hs.ids⟩)
  emails := by
    show ((s.users ++ [row]).map (·.email)).Nodup
    rw [List.map_append]
    exact List.nodup_append_comm.mp (List.nodup_cons.mpr ⟨hemail, hs.emails⟩)
  requestIds := hs.requestIds
  made := hs.made
  sentTo r hr := (hs.sentTo r hr).mono fun u hu => ⟨u, List.mem_append_left _ hu, rfl, rfl⟩
  history := .cons hhash hs.history
  stored u hu := by
    rcases List.mem_append.mp hu with hu | hu
    · obtain ⟨w, hw, h⟩ := hs.stored u hu
      exact ⟨w, List.mem_cons_of_mem _ hw, h⟩
    · obtain rfl := List.mem_singleton.mp hu
      exact ⟨_, List.mem_cons_self .., rfl, rfl⟩
  once := hs.once
  used w hw r hr hreset := by
    rcases List.mem_cons.mp hw with rfl | hw
    · cases hreset
    · exact hs.used w hw r hr hreset

theorem leaves_addPending {row : PendingUser} : Leaves kept s (s.addPending row) :=
  ⟨fun u hu => ⟨u, hu, rfl, rfl⟩, List.suffix_refl _, fun _ _ h => h, fun _ _ h => h,
    fun _ h _ => h, fun _ h _ _ _ => h⟩

theorem accounts_addPending {row : PendingUser} (hs : Accounts env s)
    (hhash : ∃ password, Hashes env password row.passwordHash) :
    Accounts env (s.addPending row) where
  ids := hs.ids
  emails := hs.emails
  requestIds := hs.requestIds
  made p hp := by
    rcases List.mem_append.mp hp with hp | hp
    · exact hs.made p hp
    · obtain rfl := List.mem_singleton.mp hp
      exact hhash
  sentTo := hs.sentTo
  history := hs.history
  stored := hs.stored
  once := hs.once
  used := hs.used

theorem leaves_addResetRequest (hid : ¬kept (.resetRequest row.id)) :
    Leaves kept s (s.addResetRequest row) where
  users u hu := ⟨u, hu, rfl, rfl⟩
  writes := List.suffix_refl _
  ids _ _ h := h
  emails _ _ h := h
  requests r hr hkept := by
    rcases List.mem_append.mp hr with h | h
    · exact h
    · obtain rfl := List.mem_singleton.mp h
      exact absurd hkept hid
  resets _ h _ _ _ := h

theorem accounts_addResetRequest (hs : Accounts env s)
    (hid : row.id ∉ s.resetRequests.map (·.id)) (hfresh : FreshIds (.requested row.id) s)
    (hsent : SentTo env s.users row) : Accounts env (s.addResetRequest row) where
  ids := hs.ids
  emails := hs.emails
  requestIds := by
    show ((s.resetRequests ++ [row]).map (·.id)).Nodup
    rw [List.map_append]
    exact List.nodup_append_comm.mp (List.nodup_cons.mpr ⟨hid, hs.requestIds⟩)
  made := hs.made
  sentTo r hr := by
    rcases List.mem_append.mp hr with hr | hr
    · exact hs.sentTo r hr
    · obtain rfl := List.mem_singleton.mp hr
      exact hsent
  history := hs.history
  stored := hs.stored
  once := hs.once
  used w hw r hr hreset := by
    rcases List.mem_append.mp hr with hr | hr
    · exact hs.used w hw r hr hreset
    · obtain rfl := List.mem_singleton.mp hr
      exact absurd hreset (hfresh w hw)

theorem updateResetRequest_id (f : PasswordResetRequest → PasswordResetRequest) (requestId : Uuid)
    (hf : ∀ r, (f r).id = r.id) : (s.updateResetRequest requestId f).resetRequests.map (·.id) =
      s.resetRequests.map (·.id) := by
  show List.map _ (s.resetRequests.map _) = _
  rw [List.map_map]
  refine List.map_congr_left fun r _ => ?_
  simp only [Function.comp_apply]
  split
  · exact hf r
  · rfl

theorem leaves_used (hid : ¬kept (.resetRequest requestId)) :
    Leaves kept s ((Write.used requestId usedAt).apply s) where
  users u hu := ⟨u, hu, rfl, rfl⟩
  writes := List.suffix_refl _
  ids _ _ h := h
  emails _ _ h := h
  requests r hr hkept := by
    obtain ⟨q, hq, rfl⟩ := List.mem_map.mp hr
    split at hkept
    next heq => exact absurd (heq ▸ hkept) hid
    next hne => rwa [if_neg hne]
  resets _ h _ _ _ := h

theorem accounts_used (hs : Accounts env s) :
    Accounts env ((Write.used requestId usedAt).apply s) where
  ids := hs.ids
  emails := hs.emails
  requestIds := by
    have hids : ((Write.used requestId usedAt).apply s).resetRequests.map (·.id) =
        s.resetRequests.map (·.id) := updateResetRequest_id _ _ fun _ => rfl
    exact hids ▸ hs.requestIds
  made := hs.made
  sentTo r hr := by
    obtain ⟨q, hq, rfl⟩ := List.mem_map.mp hr
    split
    · exact hs.sentTo q hq
    · exact hs.sentTo q hq
  history := hs.history
  stored := hs.stored
  once := hs.once
  used w hw r hr hreset := by
    obtain ⟨q, hq, rfl⟩ := List.mem_map.mp hr
    split at hreset
    next heq =>
      rw [if_pos heq]
      exact ⟨Option.some_ne_none _, (hs.used w hw q hq hreset).2⟩
    next hne =>
      rw [if_neg hne]
      exact hs.used w hw q hq hreset

theorem setPassword_map {α : Type} (f : User → α)
    (hf : ∀ u : User, f { u with passwordHash := hash } = f u) :
    (s.setPassword loaded hash origin).users.map f = s.users.map f := by
  unfold State.setPassword
  split
  · rfl
  · exact updateUser_map f _ _ hf

theorem leaves_setPassword (hid : ∀ id, origin.resetId = some id → ¬kept (.resetRequest id)) :
    Leaves kept s (s.setPassword loaded hash origin) where
  users u hu := by
    have hmap : (s.setPassword loaded hash origin).users.map (fun u => (u.id, u.email)) =
        s.users.map fun u => (u.id, u.email) := setPassword_map _ fun _ => rfl
    obtain ⟨v, hv, hvu⟩ := List.mem_map.mp (hmap.symm ▸ List.mem_map_of_mem hu)
    exact ⟨v, hv, congrArg (·.1) hvu, congrArg (·.2) hvu⟩
  writes := by
    unfold State.setPassword
    split
    · exact List.suffix_refl _
    · exact List.suffix_cons _ _
  ids id _ h := by rwa [setPassword_map _ fun _ => rfl] at h
  emails email _ h := by rwa [setPassword_map _ fun _ => rfl] at h
  requests r hr _ := by rwa [setPassword_resetRequests] at hr
  resets w hw id hreset hkept := by
    unfold State.setPassword at hw
    split at hw
    · exact hw
    · rcases List.mem_cons.mp hw with rfl | hw
      · exact absurd hkept (hid id hreset)
      · exact hw

theorem accounts_setPassword
    (hs : Accounts env s) (hjust : Justified env s.writes ⟨loaded.id, hash, origin⟩)
    (hfirst : ∀ w ∈ s.writes, ∀ id, origin.resetId = some id → w.origin.resetId ≠ some id)
    (hlink : ∀ r ∈ s.resetRequests, origin.resetId = some r.id →
      r.usedAt ≠ none ∧ r.userId = some loaded.id) :
    Accounts env (s.setPassword loaded hash origin) := by
  unfold State.setPassword
  split
  · exact hs
  · refine ⟨?_, ?_, hs.requestIds, hs.made, fun r hr => (hs.sentTo r hr).mono fun u hu =>
      ⟨_, List.mem_map_of_mem hu, ?_, ?_⟩, .cons hjust hs.history, fun u hu => ?_, ?_,
      fun w hw r hr hreset => ?_⟩
    · show ((s.updateUser loaded.id fun u => { u with passwordHash := hash }).users.map
        (·.id)).Nodup
      rw [updateUser_map (·.id) loaded.id (fun u => { u with passwordHash := hash }) fun _ => rfl]
      exact hs.ids
    · show ((s.updateUser loaded.id fun u => { u with passwordHash := hash }).users.map
        (·.email)).Nodup
      rw [updateUser_map (·.email) loaded.id (fun u => { u with passwordHash := hash })
        fun _ => rfl]
      exact hs.emails
    · split <;> rfl
    · split <;> rfl
    · obtain ⟨v, hv, rfl⟩ := List.mem_map.mp hu
      split
      next heq => exact ⟨_, List.mem_cons_self .., heq.symm, rfl⟩
      next =>
        obtain ⟨w, hw, h⟩ := hs.stored v hv
        exact ⟨w, List.mem_cons_of_mem _ hw, h⟩
    · rw [List.filterMap_cons]
      cases hreset : origin.resetId with
      | none => exact hs.once
      | some id =>
        refine List.nodup_cons.mpr ⟨fun hmem => ?_, hs.once⟩
        obtain ⟨w, hw, hwid⟩ := List.mem_filterMap.mp hmem
        exact hfirst w hw id hreset hwid
    · rcases List.mem_cons.mp hw with rfl | hw
      · exact hlink r hr hreset
      · exact hs.used w hw r hr hreset

end Writes

/-! ### Programs -/

section Programs

variable {pending : State → State}

abbrev Ends : Post State Lock Unit := fun _ _ _ _ => True

def Knows (user : User) (s : State) : Prop :=
  (∃ u ∈ s.users, u.id = user.id ∧ u.email = user.email) ∧
    ∃ w ∈ s.writes, w.userId = user.id ∧ w.passwordHash = user.passwordHash

theorem Knows.of_mem (hs : Accounts env s) (h : user ∈ s.users) : Knows user s :=
  ⟨⟨user, h, rfl, rfl⟩, hs.stored user h⟩

theorem Knows.later (h : Knows user s) (ht : Leaves (· ∈ held) s t) :
    Knows user t := by
  obtain ⟨⟨u, hu, hid, hemail⟩, w, hw, hwrite⟩ := h
  obtain ⟨v, hv, hvid, hvemail⟩ := ht.users u hu
  exact ⟨⟨v, hv, hvid.trans hid, hvemail.trans hemail⟩, w, ht.writes.subset hw, hwrite⟩

theorem Knows.sees (h : Knows user s) (ht : Sees (accounts ι env) i s t) :
    Knows user t :=
  ht.induct h fun _ _ _ _ hlater hu => hu.later hlater.1

theorem wp_clearLoginFailures (hQ : ∀ t more x, held ⊆ more → Under (accounts ι env) i held s t →
      (x = id ∨ ∃ ids, x = (Write.deleteFailures ids).apply) → Q () (x ∘ pending) more t) :
    wp (accounts ι env) i (clearLoginFailures email) Q pending held s := by
  unfold clearLoginFailures
  rw [wp_bind, wp_ask]
  intro t ht
  have hunder : Under (accounts ι env) i held s t := Under.refl.later (List.Subset.refl _) ht
  cases (pending t).userByEmail? email with
  | none => exact hQ t held id (List.Subset.refl _) hunder (Or.inl rfl)
  | some user =>
    simp only [wp_bind, wp_ask]
    intro u hu
    refine wp_takeAll_under fun more v hmore hv => ?_
    rw [wp_put]
    exact hQ v more _ hmore ((hunder.later (List.Subset.refl _) hu).trans hv) (Or.inr ⟨_, rfl⟩)

theorem keeps_plain (hx : x.Plain)
    (h : Keeps (accounts ι env) i held s t) : Keeps (accounts ι env) i held s (x.apply t) :=
  ⟨(SameAccounts.of_apply hx t).accounts h.1, h.2.trans ((SameAccounts.of_apply hx t).leaves _)⟩

theorem wp_revokeAllUserSessions {changed : State → State} {rows : List Lock}
    (hcommit : ∀ more t, held ⊆ more →
      Under (accounts ι env) i held s t → Accounts env t →
      Keeps (accounts ι env) i more t (changed (pending t)))
    (hQ : ∀ t, Q () id [] t) :
    wp (accounts ι env) i (revokeAllUserSessions userId changed rows) Q pending held s := by
  unfold revokeAllUserSessions
  simp only [wp_bind, wp_ask]
  intro t ht
  refine wp_takeAll_under fun more u hmore hu => ?_
  rw [wp_put]
  refine wp_takeAll_under fun last v hlast hv => ?_
  rw [wp_put, wp_commitAs]
  intro x hx _
  have hunder : Under (accounts ι env) i held s x :=
    Under.later (((Under.refl.later (List.Subset.refl _) ht).trans hu).trans (hv.of_subset hmore))
      (List.Subset.trans hmore hlast) hx
  exact ⟨keeps_plain (x := .deleteSessions _) trivial
    (hcommit last x (List.Subset.trans hmore hlast) hunder hx.2), hQ _⟩

theorem verify_valid {salt hash password : String}
    (h : (env.verifyPasswordWithRehash salt hash password).valid = true) :
    Accepts env hash password ∧
      ∀ rehash ∈ (env.verifyPasswordWithRehash salt hash password).rehash,
        Hashes env password rehash := by
  unfold Env.verifyPasswordWithRehash at h ⊢
  simp only at h ⊢
  split at h
  next hmaterial =>
    rw [if_pos hmaterial]
    refine ⟨Or.inl hmaterial, fun rehash hrehash => ?_⟩
    simp only at hrehash
    split at hrehash
    · exact ⟨salt, (Option.some.inj hrehash).symm⟩
    · cases hrehash
  next hmaterial =>
    rw [if_neg hmaterial]
    split at h
    next => cases h
    next hplain =>
      rw [if_neg hplain]
      split at h
      next hlegacy =>
        rw [if_pos hlegacy]
        exact ⟨Or.inr hlegacy, fun rehash hrehash => ⟨salt, (Option.some.inj hrehash).symm⟩⟩
      next => cases h

theorem passwordCheck_some {salt : String}
    (h : passwordCheck env payload salt found = some (user, rehash)) :
    found = some user ∧ Accepts env user.passwordHash payload.password ∧
      ∀ hash ∈ rehash, Hashes env payload.password hash := by
  unfold passwordCheck at h
  obtain ⟨u, rfl, hcheck⟩ := Option.bind_eq_some_iff.mp h
  simp only [Option.map_some, Option.getD_some] at hcheck
  split at hcheck
  next hvalid =>
    obtain ⟨rfl, rfl⟩ := Prod.mk.inj (Option.some.inj hcheck)
    exact ⟨rfl, verify_valid hvalid⟩
  next => cases hcheck

theorem wp_acceptLogin
    (hknows : Knows user s) (haccepts : Accepts env user.passwordHash payload.password)
    (hrehash : ∀ hash ∈ rehash, Hashes env payload.password hash) :
    wp (accounts ι env) i (acceptLogin env payload draws user rehash) Ends id held s := by
  unfold acceptLogin
  rw [wp_bind]
  refine wp_clearLoginFailures fun t more x _ ht hx => ?_
  rw [wp_bind]
  refine wp_revokeAllUserSessions (fun last u _ hu hinv => ?_) fun _ => ?_
  · have hclear : Keeps (accounts ι env) i last u (x u) := by
      rcases hx with rfl | ⟨ids, rfl⟩
      · exact ⟨hinv, Leaves.refl _ u⟩
      · exact keeps_plain (x := .deleteFailures ids) trivial ⟨hinv, Leaves.refl _ u⟩
    have hwrites : (x u).writes = u.writes := by
      rcases hx with rfl | ⟨ids, rfl⟩ <;> rfl
    cases hr : rehash with
    | none => exact hclear
    | some hash =>
      have hlater : Knows user u :=
        (hknows.sees (ht.of_subset (List.nil_subset _))).sees (hu.of_subset (List.nil_subset _))
      refine ⟨accounts_setPassword hclear.1 ⟨hrehash hash hr, haccepts, ?_⟩ (fun _ _ _ h => by
        cases h) (fun _ _ h => by cases h), hclear.2.trans (leaves_setPassword fun _ h => by
        cases h)⟩
      show ∃ v ∈ (x u).writes, v.userId = user.id ∧ v.passwordHash = user.passwordHash
      rw [hwrites]
      exact hlater.2
  · exact wp_of_plain (fun x hx => hx) (changes_startSession
      (fun x hx => by cases x <;> first | exact hx | trivial) (fun _ _ => trivial)
      (fun _ => .refl) trivial)

theorem wp_login :
    wp (accounts ι env) i (login env payload draws) Ends id held s := by
  unfold login checkLoginLockout
  simp only [wp_bind, wp_ask, wp_pure, wp_check]
  intro _ _ _ _ _ _ _ t ht
  cases hcheck : passwordCheck env payload draws.salt ((id t).userByEmail? payload.email) with
  | none => exact wp_of_plain (fun x hx => hx) (changes_rejectLogin fun _ _ => trivial)
  | some accepted =>
    obtain ⟨hfound, haccepts, hrehash⟩ := passwordCheck_some hcheck
    exact wp_acceptLogin (.of_mem ht.2 (List.mem_of_find?_eq_some hfound)) haccepts hrehash

theorem not_mem_of_any {α β : Type} [DecidableEq β] {rows : List α} {f : α → β} {b : β}
    (h : (rows.any fun r => f r = b) = false) : b ∉ rows.map f := by
  intro hmem
  obtain ⟨r, hr, hrb⟩ := List.mem_map.mp hmem
  have hnot := List.any_eq_false.mp h r hr
  simp [hrb] at hnot

theorem wp_insertResetRequest (hsent : ∀ t, Sees (accounts ι env) i s t → SentTo env t.users row) :
    wp (accounts ι env) i (do
      insertResetRequest row
      Prog.commitAs (.requested row.id) : AuthProg Unit) Ends id held s := by
  unfold insertResetRequest
  simp only [wp_bind, wp_ask, wp_take, wp_check, wp_put, wp_commitAs]
  intro t ht u hu htaken v hv hfresh
  have hsees : Sees (accounts ι env) i s v := ((Sees.refl.later ht).later hu).later hv
  refine ⟨⟨accounts_addResetRequest hv.2 (fun hmem => ?_) hfresh (hsent v hsees),
    leaves_addResetRequest fun h => h (List.mem_cons_self ..)⟩, trivial⟩
  obtain ⟨r, hr, hid⟩ := List.mem_map.mp hmem
  have hold : r ∈ u.resetRequests := hv.1.requests r hr (hid ▸ List.mem_cons_self ..)
  exact not_mem_of_any htaken (List.mem_map.mpr ⟨r, hold, hid⟩)

theorem wp_requestPasswordResetRow
    {now : Timestamp} {comment : Option String} (hfound : ∀ user ∈ found, Knows user s ∧
      env.sqlLower user.email = env.lower email) :
    wp (accounts ι env) i (requestPasswordResetRow env (env.hashEmail (env.lower email)) draws
      found now comment) Ends id held s := by
  unfold requestPasswordResetRow
  cases found with
  | none => exact fun t ht _ => ⟨⟨ht.2, Leaves.refl _ t⟩, trivial⟩
  | some user =>
    obtain ⟨hknows, hemail⟩ := hfound user rfl
    simp only [wp_bind, wp_ask]
    intro t ht
    have hsent : ∀ row : PasswordResetRequest, row.userId = some user.id →
        row.emailHash = env.hashEmail (env.lower email) →
        ∀ u, Sees (accounts ι env) i t u → SentTo env u.users row := by
      intro row hid hhash u hu
      obtain ⟨v, hv, hvid, hvemail⟩ := ((hknows.later ht.1).sees hu).1
      exact ⟨v, hv, hvid ▸ hid, email, hhash, hvemail ▸ hemail⟩
    split
    · exact wp_insertResetRequest (hsent _ rfl rfl)
    · exact wp_insertResetRequest (hsent _ rfl rfl)

theorem userByLower_some (h : s.userByLower? env draws email = some user) :
    user ∈ s.users ∧ env.sqlLower user.email = email := by
  have hmem := List.mem_filter.mp (List.mem_of_getElem? h)
  exact ⟨hmem.1, of_decide_eq_true hmem.2⟩

theorem wp_requestPasswordReset :
    wp (accounts ι env) i (requestPasswordReset env email draws) Ends id held s := by
  unfold requestPasswordReset passwordResetRequestThrottleComment
  simp only [wp_bind, wp_ask, wp_tryTake]
  intro _ _ t ht
  have hfound : ∀ user ∈ (id t).userByLower? env draws (env.lower (strip email)), Knows user t ∧
      env.sqlLower user.email = env.lower (strip email) := fun user huser =>
    ⟨.of_mem ht.2 (userByLower_some huser).1, (userByLower_some huser).2⟩
  have hlater : ∀ {more u}, Later (accounts ι env) i more t u →
      ∀ user ∈ (id t).userByLower? env draws (env.lower (strip email)), Knows user u ∧
        env.sqlLower user.email = env.lower (strip email) := fun hu user huser =>
    ⟨(hfound user huser).1.later hu.1, (hfound user huser).2⟩
  intro u hu
  refine ⟨?_, wp_requestPasswordResetRow (hlater hu)⟩
  simp only [if_true, wp_bind, wp_ask, wp_pure]
  intro v hv x hx
  exact wp_requestPasswordResetRow fun user huser =>
    ⟨(((hlater hu user huser).1.later hv.1).later hx.1), (hlater hu user huser).2⟩

/-! ### A reset -/

def Unused (row : PasswordResetRequest) (s : State) : Prop :=
  (∀ r ∈ s.resetRequests, r.id = row.id → r.userId = row.userId) ∧
    ∀ w ∈ s.writes, w.origin.resetId ≠ some row.id

theorem eq_of_id {r row : PasswordResetRequest} (hs : Accounts env s) (hr : r ∈ s.resetRequests)
    (hrow : row ∈ s.resetRequests) (hid : r.id = row.id) : r = row :=
  List.inj_on_of_nodup_map hs.requestIds hr hrow hid

theorem Unused.of_mem (hs : Accounts env s)
    (hrow : row ∈ s.resetRequests) (hunused : row.usedAt = none) : Unused row s :=
  ⟨fun _ hr hid => congrArg _ (eq_of_id hs hr hrow hid), fun w hw hreset =>
    (hs.used w hw row hrow hreset).1 hunused⟩

theorem Unused.later (h : Unused row s)
    (hlock : .resetRequest row.id ∈ held) (ht : Leaves (· ∈ held) s t) : Unused row t :=
  ⟨fun r hr hid => h.1 r (ht.requests r hr (hid ▸ hlock)) hid, fun w hw hreset =>
    h.2 w (ht.resets w hw row.id hreset hlock) hreset⟩

theorem Unused.under (h : Unused row s)
    (hlock : .resetRequest row.id ∈ held) (ht : Under (accounts ι env) i held s t) :
    Unused row t :=
  ht.induct h fun _ _ _ hsub hlater hu => hu.later (hsub hlock) hlater.1

theorem keeps_reset (hs : Accounts env s) (hlock : .resetRequest row.id ∈ held)
    (hunused : Unused row s) (huser : row.userId = some user.id)
    (hhash : Hashes env password hash) :
    Keeps (accounts ι env) i held s (((Write.used row.id usedAt).apply s).setPassword user hash
      (.reset row.id password)) := by
  refine ⟨accounts_setPassword (accounts_used hs) hhash (fun w hw id hid hreset => ?_)
    fun r hr hid => ?_,
    (leaves_used fun h => h hlock).trans (leaves_setPassword fun id hid h => ?_)⟩
  · obtain rfl := Option.some.inj hid
    exact hunused.2 w hw hreset
  · obtain ⟨q, hq, rfl⟩ := List.mem_map.mp hr
    split at hid
    next heq =>
      rw [if_pos heq]
      exact ⟨Option.some_ne_none _, (hunused.1 q hq heq).trans huser⟩
    next hne => exact absurd (Option.some.inj hid).symm hne
  · obtain rfl := Option.some.inj hid
    exact h hlock

theorem wp_checkStrength (hQ : Q () pending held s) :
    wp (accounts ι env) i (checkStrength env password) Q pending held s := by
  unfold checkStrength
  cases env.validatePasswordStrength password with
  | none => exact hQ
  | some message => trivial

theorem user?_id {id : Uuid} (h : s.user? id = some user) : user.id = id := by
  unfold State.user? at h
  have hfound := List.find?_some h
  exact of_decide_eq_true hfound

theorem wp_resetPassword {payload : PasswordResetIn} :
    wp (accounts ι env) i (resetPassword env payload draws) Ends id [] s := by
  unfold resetPassword lockResetRequest
  simp only [wp_bind, wp_ask, wp_orRaise, wp_take, wp_check]
  intro _ _ candidate _ _ _ t ht row hrow hused expiresAt _ u hu _ v hv user huser
  refine wp_checkStrength ?_
  intro x hx
  have hmem : row ∈ t.resetRequests := List.mem_of_find?_eq_some hrow
  have hfound := List.find?_some hrow
  have hid : row.id = candidate.id := (of_decide_eq_true hfound).1
  have hlock : Lock.resetRequest row.id ∈ [Lock.resetRequest candidate.id] :=
    hid ▸ List.mem_singleton_self _
  have hunused : Unused row x :=
    (((Unused.of_mem ht.2 hmem hused).later hlock hu.1).later hlock hv.1).later hlock hx.1
  obtain ⟨userId, huserId, hget⟩ := Option.bind_eq_some_iff.mp huser
  have hsame : user.id = userId := user?_id hget
  refine wp_revokeAllUserSessions (fun more y hmore hy hinv => ?_) fun _ => ?_
  · exact keeps_reset hinv (hmore hlock) (hunused.under hlock hy) (hsame ▸ huserId)
      ⟨draws.salt, rfl⟩
  · rw [← wp_bind]
    refine @wp_of_plain env ι i _ _ _ Write.Plain _ (fun _ hx => hx) ?_
    rw [changes_bind]
    exact changes_clearLoginFailures ⟨fun _ => .refl, trivial⟩ fun ids =>
      ⟨fun t => Made.refl.step (x := .deleteFailures ids) trivial, trivial⟩

/-! ### A new account -/

def Unknown (row : User) (s : State) : Prop :=
  row.id ∉ s.users.map (·.id) ∧ row.email ∉ s.users.map (·.email)

def rowLocks (row : User) : List Lock := [.userEmail row.email, .user row.id]

theorem Unknown.later {row : User} (h : Unknown row s) (hlocks : rowLocks row ⊆ held)
    (ht : Leaves (· ∈ held) s t) : Unknown row t :=
  ⟨fun hid => h.1 (ht.ids _ (hlocks (by simp [rowLocks])) hid),
    fun hemail => h.2 (ht.emails _ (hlocks (by simp [rowLocks])) hemail)⟩

theorem Unknown.under {row : User} (h : Unknown row s) (hlocks : rowLocks row ⊆ held)
    (ht : Under (accounts ι env) i held s t) : Unknown row t :=
  ht.induct h fun _ _ _ hsub hlater hu => hu.later (List.Subset.trans hlocks hsub) hlater.1

theorem wp_insertUser {row : User} (hpending : ∀ t, (pending t).users = t.users)
    (hQ : ∀ t more, held ⊆ more → rowLocks row ⊆ more → Under (accounts ι env) i held s t →
      Unknown row t → Q () ((Write.addUser row).apply ∘ pending) more t) :
    wp (accounts ι env) i (insertUser row) Q pending held s := by
  unfold insertUser
  simp only [wp_bind, wp_ask, wp_take, wp_check, wp_put, hpending]
  intro t ht u hu v hv hid x hx hemail
  have hlocks : rowLocks row ⊆ Lock.userEmail row.email :: Lock.user row.id :: held := by
    simp [rowLocks]
  have hunknown : Unknown row x :=
    ⟨fun hmem => not_mem_of_any hid (hx.1.ids _ (hlocks (by simp [rowLocks])) hmem),
      not_mem_of_any hemail⟩
  have hmore : held ⊆ Lock.userEmail row.email :: Lock.user row.id :: held := by simp
  refine hQ x _ hmore hlocks ?_ hunknown
  exact (((Under.refl.later (List.Subset.refl _) ht).later (by simp) hu).later hmore hv).later
    hmore hx

theorem keeps_addUser {row : User} (h : Keeps (accounts ι env) i held s t)
    (hlocks : rowLocks row ⊆ held) (hunknown : Unknown row t)
    (hhash : ∃ password, Hashes env password row.passwordHash) :
    Keeps (accounts ι env) i held s (t.addUser row) :=
  ⟨accounts_addUser h.1 hunknown.1 hunknown.2 hhash,
    h.2.trans (leaves_addUser (fun hid => hid (hlocks (by simp [rowLocks])))
      fun hemail => hemail (hlocks (by simp [rowLocks])))⟩

theorem wp_startSession
    (hcommit : ∀ more t, held ⊆ more → Under (accounts ι env) i held s t → Accounts env t →
      Keeps (accounts ι env) i more t (pending t)) :
    wp (accounts ι env) i (startSession env userId draws) Ends pending held s := by
  unfold startSession createSessionRow
  simp only [wp_bind, wp_ask, wp_take, wp_check, wp_put, wp_commitAs]
  intro t ht u hu v hv x hx _ y hy z hz a ha _
  have hone : held ⊆ Lock.session (env.hashSessionToken draws.sessionSecret) :: held := by simp
  have htwo : held ⊆ Lock.user userId ::
      Lock.session (env.hashSessionToken draws.sessionSecret) :: held := by simp
  have hunder : Under (accounts ι env) i held s a :=
    ((((((Under.refl.later (List.Subset.refl _) ht).later (List.Subset.refl _) hu).later
      (List.Subset.refl _) hv).later hone hx).later hone hy).later hone hz).later htwo ha
  exact ⟨keeps_plain (x := .signedIn userId _) trivial (keeps_plain (x := .addSession _) trivial
    (hcommit _ a htwo hunder ha.2)), trivial⟩

theorem plainSession :
    wp (accounts ι env) i (startSession env userId draws) Ends id held s :=
  wp_startSession fun _ t _ _ ht => ⟨ht, Leaves.refl _ t⟩

theorem wp_signup {payload : SignupIn} :
    wp (accounts ι env) i (signup env payload draws) Ends id [] s := by
  unfold signup
  rw [wp_bind]
  refine wp_checkStrength ?_
  rw [wp_bind, wp_ask]
  intro t ht
  split
  · unfold reapExpiredPendingSignup
    simp only [wp_bind, wp_ask]
    intro _ _ _ _
    refine wp_takeAll_under fun more u _ _ => ?_
    rw [wp_put]
    intro v _
    have hkeeps : ∀ ids x, Accounts env x → Keeps (accounts ι env) i more x
        ((Write.deletePending ids).apply x) := fun ids x hx =>
      keeps_plain (x := .deletePending ids) trivial ⟨hx, Leaves.refl _ x⟩
    split
    · simp only [wp_bind, wp_ask, wp_put, wp_commitAs]
      intro _ _ x hx _
      exact ⟨⟨accounts_addPending (hkeeps _ x hx.2).1 ⟨payload.password, draws.salt, rfl⟩,
        (hkeeps _ x hx.2).2.trans leaves_addPending⟩, trivial⟩
    · rw [wp_commitAs]
      exact fun x hx _ => ⟨hkeeps _ x hx.2, trivial⟩
  · rw [wp_bind, wp_check]
    intro _
    rw [wp_bind]
    refine wp_insertUser (fun _ => rfl) fun u more _ hlocks _ hunknown => ?_
    refine wp_startSession fun last v hmore hv hinv => ?_
    exact keeps_addUser ⟨hinv, Leaves.refl _ v⟩ (List.Subset.trans hlocks hmore)
      (hunknown.under hlocks hv) ⟨payload.password, draws.salt, rfl⟩

theorem wp_verify {payload : VerifyIn} :
    wp (accounts ι env) i (verify env payload draws) Ends id [] s := by
  unfold verify
  simp only [wp_bind, wp_ask, wp_orRaise, wp_check, wp_take, wp_put]
  intro t ht pending hpending _ _ _ _ _ _ _ _ _ _ _ _ _ _
  obtain ⟨hfind, _⟩ := Option.filter_eq_some_iff.mp hpending
  have hhash := ht.2.made pending (List.mem_of_find?_eq_some hfind)
  refine wp_insertUser (fun _ => rfl) fun u more _ hlocks _ hunknown => ?_
  refine wp_revokeAllUserSessions (fun last v hmore hv hinv => ?_) fun _ => plainSession
  have hverified : ∀ verifiedAt, Keeps (accounts ι env) i last v
      ((Write.verified pending.id verifiedAt).apply v) := fun verifiedAt =>
    keeps_plain (x := .verified pending.id verifiedAt) trivial ⟨hinv, Leaves.refl _ v⟩
  have hstill := hunknown.under hlocks hv
  exact keeps_addUser (hverified _) (List.Subset.trans hlocks hmore) hstill hhash

theorem wp_prog (r : Request) : wp (accounts ι env) i (r.prog env) Ends id [] s := by
  cases r with
  | login payload draws => exact wp_login
  | logout token =>
    exact wp_of_plain (fun x hx => by cases x <;> trivial)
      (Request.logout token).changes_prog
  | requestPasswordReset email draws => exact wp_requestPasswordReset
  | resetPassword payload draws => exact wp_resetPassword
  | signup payload draws => exact wp_signup
  | verify payload draws => exact wp_verify
  | purgeExpiredSessions =>
    exact wp_of_plain (fun x hx => by cases x <;> trivial)
      Request.purgeExpiredSessions.changes_prog
  | purgePasswordResetRequests =>
    exact wp_of_plain (fun x hx => by obtain ⟨ids, rfl⟩ := hx; trivial)
      Request.purgePasswordResetRequests.changes_prog

end Programs

/-! ### Runs -/

/-- No accounts, no sign-ups and no requests yet -/
def Fresh (s : State) : Prop :=
  s.users = [] ∧ s.pending = [] ∧ s.resetRequests = [] ∧ s.writes = []

theorem Fresh.accounts (h : Fresh s) : Accounts env s := by
  obtain ⟨husers, hpending, hrequests, hwrites⟩ := h
  constructor <;> simp [husers, hpending, hrequests, hwrites, History.nil]

theorem accounts_of_run [DecidableEq ι] [Fintype ι] {requests : ι → Request} {acts : List (Act ι ℕ)}
    {w : World ι State Lock Mark Refusal} (hstart : Accounts env s)
    (hfresh : Machine.Meets step (World.Granted FreshIds)
      (start s fun i => (requests i).prog env) acts)
    (hrun : Machine.run step (start s fun i => (requests i).prog env) acts = some w) :
    Accounts env w.committed := by
  have hclock : Bears (accounts ι env) clock := fun micros t ht =>
    ⟨⟨ht.ids, ht.emails, ht.requestIds, ht.made, ht.sentTo, ht.history, ht.stored, ht.once,
      ht.used⟩, fun _ held => ⟨fun u hu => ⟨u, hu, rfl, rfl⟩, List.suffix_refl _, fun _ _ h => h,
      fun _ _ h => h, fun _ h _ => h, fun _ h _ _ _ => h⟩⟩
  exact inv_of_run (P := accounts ι env) hclock hstart (fun i => wp_prog (requests i)) hfresh hrun

/-- A password that was chosen for the account, at sign-up or with a reset link -/
def Chosen (env : Env) (writes : List PasswordWrite) (userId : Uuid) (password : String) : Prop :=
  ∃ w ∈ writes, w.userId = userId ∧
    (w.origin = .signedUp ∨ ∃ requestId, w.origin = .reset requestId password) ∧
      Hashes env password w.passwordHash

theorem Chosen.cons {writes : List PasswordWrite}
    (h : Chosen env writes userId password) (w : PasswordWrite) :
    Chosen env (w :: writes) userId password := by
  obtain ⟨v, hv, hchosen⟩ := h
  exact ⟨v, List.mem_cons_of_mem _ hv, hchosen⟩

section Digests

variable (hverify : ∀ salt m m', env.argonVerify (env.argonHash salt m) m' = true → m' = m)
  (hpepper : Function.Injective env.passwordMaterial)
include hverify hpepper

theorem accepted_cases {hash made password : String} (hhash : Hashes env made hash)
    (h : Accepts env hash password) : password = made ∨ password = env.passwordMaterial made := by
  obtain ⟨salt, rfl⟩ := hhash
  rcases h with h | h
  · exact Or.inl (hpepper (hverify _ _ _ h))
  · exact Or.inr (hverify _ _ _ h)

theorem History.chosen {writes : List PasswordWrite} (h : History env writes) :
    ∀ w ∈ writes, ∃ password n, Chosen env writes w.userId password ∧
      Hashes env (env.passwordMaterial^[n] password) w.passwordHash := by
  induction h with
  | nil => exact fun w hw => absurd hw List.not_mem_nil
  | @cons w older hjust _ ih =>
    intro v hv
    rcases List.mem_cons.mp hv with rfl | hv
    · unfold Justified at hjust
      cases horigin : v.origin with
      | signedUp =>
        rw [horigin] at hjust
        obtain ⟨password, hhash⟩ := hjust
        exact ⟨password, 0, ⟨v, List.mem_cons_self .., rfl, Or.inl horigin, hhash⟩, hhash⟩
      | reset requestId password =>
        rw [horigin] at hjust
        exact ⟨password, 0, ⟨v, List.mem_cons_self .., rfl, Or.inr ⟨requestId, horigin⟩, hjust⟩,
          hjust⟩
      | rehashed accepted password =>
        rw [horigin] at hjust
        obtain ⟨hhash, haccepts, u, hu, hid, rfl⟩ := hjust
        obtain ⟨chosen, n, hchosen, hmade⟩ := ih u hu
        rw [hid] at hchosen
        rcases accepted_cases hverify hpepper hmade haccepts with rfl | rfl
        · exact ⟨chosen, n, hchosen.cons v, hhash⟩
        · rw [← Function.iterate_succ_apply' env.passwordMaterial] at hhash
          exact ⟨chosen, n + 1, hchosen.cons v, hhash⟩
    · obtain ⟨password, n, hchosen, hmade⟩ := ih v hv
      exact ⟨password, n, hchosen.cons w, hmade⟩

end Digests

/-- Whatever requests overlap: a link changes a password at most once, a link that did is used and
belongs to the account it changed, and what opens an account is a password chosen for it, or
(under a pepper) an iterated digest of one. A hash is taken to verify only the text it was made
of, and the digest to be injective. -/
theorem account_kept [DecidableEq ι] [Fintype ι] {requests : ι → Request} {acts : List (Act ι ℕ)}
    {w : World ι State Lock Mark Refusal}
    (hverify : ∀ salt m m', env.argonVerify (env.argonHash salt m) m' = true → m' = m)
    (hpepper : Function.Injective env.passwordMaterial) (hstart : Fresh s)
    (hfresh : Machine.Meets step (World.Granted FreshIds)
      (start s fun i => (requests i).prog env) acts)
    (hrun : Machine.run step (start s fun i => (requests i).prog env) acts = some w) :
    (w.committed.users.map (·.email)).Nodup ∧
      (w.committed.writes.filterMap (·.origin.resetId)).Nodup ∧
      (∀ x ∈ w.committed.writes, ∀ r ∈ w.committed.resetRequests,
        x.origin.resetId = some r.id → r.usedAt ≠ none ∧ r.userId = some x.userId) ∧
      ∀ u ∈ w.committed.users, ∀ password, Accepts env u.passwordHash password →
        ∃ chosen n, Chosen env w.committed.writes u.id chosen ∧
          password = env.passwordMaterial^[n] chosen := by
  have hw := accounts_of_run hstart.accounts hfresh hrun
  refine ⟨hw.emails, hw.once, hw.used, fun u hu password haccepts => ?_⟩
  obtain ⟨x, hx, hid, hhash⟩ := hw.stored u hu
  obtain ⟨chosen, n, hchosen, hmade⟩ := hw.history.chosen hverify hpepper x hx
  rw [hid] at hchosen
  rw [hhash] at hmade
  rcases accepted_cases hverify hpepper hmade haccepts with rfl | rfl
  · exact ⟨chosen, n, hchosen, rfl⟩
  · exact ⟨chosen, n + 1, hchosen, (Function.iterate_succ_apply' ..).symm⟩

instance : (m : Mark) → (s : State) → Decidable (FreshIds m s)
  | .plain, _ => .isTrue trivial
  | .requested id, s => inferInstanceAs (Decidable (∀ w ∈ s.writes, w.origin.resetId ≠ some id))

theorem account_kept_sample : ∃ w, Machine.run step sampleStart sampleReset = some w ∧
    ∀ u ∈ w.committed.users, ∀ password, Accepts sampleEnv u.passwordHash password →
      ∃ chosen n, Chosen sampleEnv w.committed.writes u.id chosen ∧
        password = sampleEnv.passwordMaterial^[n] chosen := by
  have hruns : (Machine.run step sampleStart sampleReset).isSome = true := by decide
  have hfresh : Machine.Meets step (World.Granted FreshIds) sampleStart sampleReset := by
    decide
  have hverify : ∀ salt m m', sampleEnv.argonVerify (sampleEnv.argonHash salt m) m' = true →
      m' = m := fun _ _ _ h => (of_decide_eq_true h).symm
  have hpepper : Function.Injective sampleEnv.passwordMaterial := fun _ _ h => h
  obtain ⟨w, hw⟩ := Option.isSome_iff_exists.mp hruns
  exact ⟨w, hw, (account_kept hverify hpepper ⟨rfl, rfl, rfl, rfl⟩ hfresh hw).2.2.2⟩

end StockManager.Auth
