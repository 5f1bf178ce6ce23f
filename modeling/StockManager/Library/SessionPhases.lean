import StockManager.Library.Sessions

/-! # Phases of sessions

Each session under way is in a phase, idle at first and in the end, that goes on with its own
steps; what holds of the committed state and of all phases together is kept by every step. A
phase may need locks. A program whose commits keep to a relation needs no phases. -/

namespace Sessions

/-- A census of the phases of some of the sessions: what holds of them and the committed state,
where there is room. -/
structure Phases (ι σ κ Φ : Type) [DecidableEq ι] where
  idle : Φ
  counted : ι → Prop
  needs : Φ → List κ
  room : (ι → Φ) → Prop
  inv : σ → (ι → Φ) → Prop
  needs_idle : needs idle = []
  leave : ∀ {s φs} i, inv s φs → inv s (Function.update φs i idle)

variable {ι ν σ κ μ ε Φ α β : Type} [DecidableEq ι]

namespace Phases

variable (C : Phases ι σ κ Φ) (i : ι) {held : List κ} {φ φ' : Φ} {s t : σ} {pending : σ → σ}

def Moves (locks : List κ) (φ φ' : Φ) (s t : σ) : Prop :=
  C.needs φ' ⊆ locks ∧ (φ' ≠ C.idle → C.counted i) ∧ ∀ φs, φs i = φ → C.inv s φs →
    C.room (Function.update φs i φ') → C.inv t (Function.update φs i φ')

abbrev End (σ κ Φ α : Type) : Type := α → (σ → σ) → List κ → Φ → Prop

def track : Prog σ κ μ ε α → End σ κ Φ α → (σ → σ) → List κ → Φ → Prop
  | .ret a, Q, pending, held, φ => Q a pending held φ
  | .fail _, _, _, _, _ => True
  | .query next, Q, pending, held, φ => ∀ t, ∃ φ', C.Moves i held φ φ' t t ∧
    track (next (pending t)) Q pending held φ'
  | .write f next, Q, pending, held, φ => track next Q (f ∘ pending) held φ
  | .lock l next, Q, pending, held, φ => track next Q pending (l :: held) φ
  | .tryLock l next, Q, pending, held, φ =>
    track (next true) Q pending (l :: held) φ ∧ track (next false) Q pending held φ
  | .commit _ next, Q, pending, _, φ => ∀ t, ∃ φ', C.Moves i [] φ φ' t (pending t) ∧
    track next Q id [] φ'
  | .rollback next, Q, _, _, φ => ∃ φ', (∀ t, C.Moves i [] φ φ' t t) ∧ track next Q id [] φ'
  | .effect _ f next, Q, pending, held, φ => ∀ t, ∃ φ', C.Moves i held φ φ' t (f t) ∧
    track next Q pending held φ'

variable {C i}

theorem Moves.stay (h : C.needs φ ⊆ held) (hi : φ ≠ C.idle → C.counted i) :
    C.Moves i held φ φ t t :=
  ⟨h, hi, fun φs hφ hinv _ => by rwa [← hφ, Function.update_eq_self]⟩

theorem Moves.idle_stay : C.Moves i held C.idle C.idle t t :=
  Moves.stay (C.needs_idle ▸ List.nil_subset _) (absurd rfl)

theorem Moves.quit : C.Moves i held φ C.idle t t :=
  ⟨C.needs_idle ▸ List.nil_subset _, absurd rfl, fun _ _ hinv _ => C.leave i hinv⟩

theorem track_andThen {x : Prog σ κ μ ε α} {g : α → Prog σ κ μ ε β} {Q : End σ κ Φ β} :
    C.track i (x.andThen g) Q pending held φ ↔
      C.track i x (fun a pending held φ => C.track i (g a) Q pending held φ) pending held φ := by
  induction x generalizing pending held φ with
  | ret a => exact Iff.rfl
  | fail e => exact Iff.rfl
  | query next ih => exact forall_congr' fun t => exists_congr fun φ' => and_congr Iff.rfl (ih _)
  | write f next ih => exact ih
  | lock l next ih => exact ih
  | tryLock l next ih => exact and_congr (ih _) (ih _)
  | commit m next ih => exact forall_congr' fun t => exists_congr fun φ' => and_congr Iff.rfl ih
  | rollback next ih => exact exists_congr fun φ' => and_congr Iff.rfl ih
  | effect m f next ih =>
    exact forall_congr' fun t => exists_congr fun φ' => and_congr Iff.rfl ih

@[simp] theorem track_bind {x : Prog σ κ μ ε α} {g : α → Prog σ κ μ ε β} {Q : End σ κ Φ β} :
    C.track i (x >>= g) Q pending held φ ↔
      C.track i x (fun a pending held φ => C.track i (g a) Q pending held φ) pending held φ :=
  track_andThen

@[simp] theorem track_pure {a : α} {Q : End σ κ Φ α} :
    C.track i (pure a : Prog σ κ μ ε α) Q pending held φ ↔ Q a pending held φ := Iff.rfl

@[simp] theorem track_ask {f : σ → α} {Q : End σ κ Φ α} :
    C.track i (Prog.ask f : Prog σ κ μ ε α) Q pending held φ ↔
      ∀ t, ∃ φ', C.Moves i held φ φ' t t ∧ Q (f (pending t)) pending held φ' := Iff.rfl

@[simp] theorem track_put {f : σ → σ} {Q : End σ κ Φ Unit} :
    C.track i (Prog.put f : Prog σ κ μ ε Unit) Q pending held φ ↔ Q () (f ∘ pending) held φ :=
  Iff.rfl

@[simp] theorem track_take {l : κ} {Q : End σ κ Φ Unit} :
    C.track i (Prog.take l : Prog σ κ μ ε Unit) Q pending held φ ↔ Q () pending (l :: held) φ :=
  Iff.rfl

@[simp] theorem track_tryTake {l : κ} {Q : End σ κ Φ Bool} :
    C.track i (Prog.tryTake l : Prog σ κ μ ε Bool) Q pending held φ ↔
      Q true pending (l :: held) φ ∧ Q false pending held φ := Iff.rfl

@[simp] theorem track_commitAs {m : μ} {Q : End σ κ Φ Unit} :
    C.track i (Prog.commitAs m : Prog σ κ μ ε Unit) Q pending held φ ↔
      ∀ t, ∃ φ', C.Moves i [] φ φ' t (pending t) ∧ Q () id [] φ' := Iff.rfl

@[simp] theorem track_fail {e : ε} {Q : End σ κ Φ α} :
    C.track i (Prog.fail e : Prog σ κ μ ε α) Q pending held φ ↔ True := Iff.rfl

@[simp] theorem track_check {p : Prop} [Decidable p] {e : ε} {Q : End σ κ Φ Unit} :
    C.track i (Prog.check p e : Prog σ κ μ ε Unit) Q pending held φ ↔
      (p → Q () pending held φ) := by
  unfold Prog.check
  split
  next h => simp [h, track]
  next h => simp [h, track]

end Phases

def changes (R : σ → σ → Prop) : Prog σ κ μ ε α → (α → (σ → σ) → Prop) → (σ → σ) → Prop
  | .ret a, Q, pending => Q a pending
  | .fail _, _, _ => True
  | .query next, Q, pending => ∀ t, changes R (next (pending t)) Q pending
  | .write f next, Q, pending => changes R next Q (f ∘ pending)
  | .lock _ next, Q, pending => changes R next Q pending
  | .tryLock _ next, Q, pending => ∀ granted, changes R (next granted) Q pending
  | .commit _ next, Q, pending => (∀ t, R t (pending t)) ∧ changes R next Q id
  | .rollback next, Q, _ => changes R next Q id
  | .effect _ f next, Q, pending => (∀ t, R t (f t)) ∧ changes R next Q pending

section Changes

variable {R : σ → σ → Prop} {pending : σ → σ} {held : List κ}

theorem changes_andThen {x : Prog σ κ μ ε α} {g : α → Prog σ κ μ ε β} {Q : β → (σ → σ) → Prop} :
    changes R (x.andThen g) Q pending ↔
      changes R x (fun a pending => changes R (g a) Q pending) pending := by
  induction x generalizing pending with
  | ret a => exact Iff.rfl
  | fail e => exact Iff.rfl
  | query next ih => exact forall_congr' fun t => ih _
  | write f next ih => exact ih
  | lock l next ih => exact ih
  | tryLock l next ih => exact forall_congr' fun granted => ih _
  | commit m next ih => exact and_congr Iff.rfl ih
  | rollback next ih => exact ih
  | effect m f next ih => exact and_congr Iff.rfl ih

@[simp] theorem changes_bind {x : Prog σ κ μ ε α} {g : α → Prog σ κ μ ε β}
    {Q : β → (σ → σ) → Prop} : changes R (x >>= g) Q pending ↔
      changes R x (fun a pending => changes R (g a) Q pending) pending := changes_andThen

@[simp] theorem changes_pure {a : α} {Q : α → (σ → σ) → Prop} :
    changes R (pure a : Prog σ κ μ ε α) Q pending ↔ Q a pending := Iff.rfl

@[simp] theorem changes_ask {f : σ → α} {Q : α → (σ → σ) → Prop} :
    changes R (Prog.ask f : Prog σ κ μ ε α) Q pending ↔ ∀ t, Q (f (pending t)) pending := Iff.rfl

@[simp] theorem changes_put {f : σ → σ} {Q : Unit → (σ → σ) → Prop} :
    changes R (Prog.put f : Prog σ κ μ ε Unit) Q pending ↔ Q () (f ∘ pending) := Iff.rfl

@[simp] theorem changes_take {l : κ} {Q : Unit → (σ → σ) → Prop} :
    changes R (Prog.take l : Prog σ κ μ ε Unit) Q pending ↔ Q () pending := Iff.rfl

@[simp] theorem changes_takeAll {ls : List κ} {Q : Unit → (σ → σ) → Prop} :
    changes R (Prog.takeAll ls : Prog σ κ μ ε Unit) Q pending ↔ Q () pending := by
  induction ls with
  | nil => exact Iff.rfl
  | cons l rest ih => exact ih

@[simp] theorem changes_tryTake {l : κ} {Q : Bool → (σ → σ) → Prop} :
    changes R (Prog.tryTake l : Prog σ κ μ ε Bool) Q pending ↔ ∀ granted, Q granted pending :=
  Iff.rfl

@[simp] theorem changes_commitAs {m : μ} {Q : Unit → (σ → σ) → Prop} :
    changes R (Prog.commitAs m : Prog σ κ μ ε Unit) Q pending ↔
      (∀ t, R t (pending t)) ∧ Q () id := Iff.rfl

@[simp] theorem changes_fail {e : ε} {Q : α → (σ → σ) → Prop} :
    changes R (Prog.fail e : Prog σ κ μ ε α) Q pending ↔ True := Iff.rfl

@[simp] theorem changes_check {p : Prop} [Decidable p] {e : ε} {Q : Unit → (σ → σ) → Prop} :
    changes R (Prog.check p e : Prog σ κ μ ε Unit) Q pending ↔ (p → Q () pending) := by
  unfold Prog.check
  split
  next h => simp [h, changes]
  next h => simp [h, changes]

@[simp] theorem changes_orRaise {o : Option α} {e : ε} {Q : α → (σ → σ) → Prop} :
    changes R (Prog.orRaise o e : Prog σ κ μ ε α) Q pending ↔ ∀ a, o = some a → Q a pending := by
  cases o with
  | none => simp [Prog.orRaise]
  | some a => simp [Prog.orRaise, changes]

theorem changes_mono {R' : σ → σ → Prop} {x : Prog σ κ μ ε α} {Q : α → (σ → σ) → Prop}
    (hR : ∀ s t, R s t → R' s t) (h : changes R x Q pending) : changes R' x Q pending := by
  induction x generalizing pending with
  | ret a => exact h
  | fail e => trivial
  | query next ih => exact fun t => ih _ (h t)
  | write f next ih => exact ih h
  | lock l next ih => exact ih h
  | tryLock l next ih => exact fun granted => ih _ (h granted)
  | commit m next ih => exact ⟨fun t => hR _ _ (h.1 t), ih h.2⟩
  | rollback next ih => exact ih h
  | effect m f next ih => exact ⟨fun t => hR _ _ (h.1 t), ih h.2⟩

omit [DecidableEq ι] in
theorem wp_takeAll_under {P : Protocol ι σ κ μ} {i : ι} {s : σ} {locks : List κ}
    {Q : Post σ κ Unit}
    (hQ : ∀ more t, held ⊆ more → Under P i held s t → Q () pending more t) :
    wp P i (Prog.takeAll locks : Prog σ κ μ ε Unit) Q pending held s := by
  induction locks generalizing held s with
  | nil => exact hQ held s (List.Subset.refl _) Under.refl
  | cons l rest ih =>
    intro t ht
    refine ih fun more u hmore hu =>
      hQ more u (List.Subset.trans (List.subset_cons_self ..) hmore) ?_
    exact (Under.refl.later (List.Subset.refl _) ht).trans
      (hu.of_subset (List.subset_cons_self ..))

theorem Phases.track_of_changes {C : Phases ι σ κ Φ} {i : ι} {x : Prog σ κ μ ε α}
    (hR : ∀ s t held, R s t → C.Moves i held C.idle C.idle s t)
    (h : changes R x (fun _ _ => True) pending) :
    C.track i x (fun _ _ _ _ => True) pending held C.idle := by
  induction x generalizing pending held with
  | ret a => trivial
  | fail e => trivial
  | query next ih => exact fun t => ⟨C.idle, Phases.Moves.idle_stay, ih _ (h t)⟩
  | write f next ih => exact ih h
  | lock l next ih => exact ih h
  | tryLock l next ih => exact ⟨ih _ (h true), ih _ (h false)⟩
  | commit m next ih => exact fun t => ⟨C.idle, hR _ _ _ (h.1 t), ih h.2⟩
  | rollback next ih => exact ⟨C.idle, fun _ => Phases.Moves.idle_stay, ih h⟩
  | effect m f next ih => exact fun t => ⟨C.idle, hR _ _ _ (h.1 t), ih h.2⟩

omit [DecidableEq ι] in
theorem wp_of_changes {P : Protocol ι σ κ μ} {i : ι} {s : σ} {x : Prog σ κ μ ε α}
    (hR : ∀ s t held, P.inv s → R s t → Keeps P i held s t)
    (h : changes R x (fun _ _ => True) pending) :
    wp P i x (fun _ _ _ _ => True) pending held s := by
  induction x generalizing pending held s with
  | ret a => trivial
  | fail e => trivial
  | query next ih => exact fun t _ => ih _ (h t)
  | write f next ih => exact ih h
  | lock l next ih => exact fun t _ => ih h
  | tryLock l next ih => exact fun t _ => ⟨ih _ (h true), ih _ (h false)⟩
  | commit m next ih => exact fun t ht _ => ⟨hR _ _ _ ht.2 (h.1 t), ih h.2⟩
  | rollback next ih => exact fun t _ => ih h
  | effect m f next ih => exact fun t ht _ => ⟨hR _ _ _ ht.2 (h.1 t), ih h.2⟩

end Changes

section Runs

variable {C : Phases ι σ κ Φ} {env : ν → σ → σ}
  {w w' : World ι σ κ μ ε} {i : ι} {session : Session σ κ μ ε} {φs : ι → Φ} {φ : Φ}

def World.Exclusive (w : World ι σ κ μ ε) : Prop := ∀ i j, i ≠ j → ∀ l ∈ w.held i, l ∉ w.held j

/-- The session has taken a step of the run and is still under way. -/
def World.Busy (w : World ι σ κ μ ε) (acts : List (Act ι ν)) (i : ι) : Prop :=
  .advance i ∈ acts ∧ w.sessions i ≠ none

/-- Only a counted session under way has a phase other than idle, and the locks it needs. -/
structure Fits (C : Phases ι σ κ Φ) (acts : List (Act ι ν)) (w : World ι σ κ μ ε)
    (φs : ι → Φ) : Prop where
  exclusive : w.Exclusive
  busy : ∀ i, φs i ≠ C.idle → C.counted i ∧ w.Busy acts i
  needs : ∀ i, C.needs (φs i) ⊆ w.held i

structure Tracked (C : Phases ι σ κ Φ) (acts : List (Act ι ν)) (w : World ι σ κ μ ε)
    (φs : ι → Φ) : Prop extends Fits C acts w φs where
  inv : C.inv w.committed φs
  sessions : ∀ i, ∀ session ∈ w.sessions i,
    C.track i session.prog (fun _ _ _ _ => True) session.pending session.held (φs i)

omit [DecidableEq ι] in
theorem World.Busy.more {acts : List (Act ι ν)} {a : Act ι ν} (h : w.Busy acts i)
    (hstill : w'.sessions i ≠ none) : w'.Busy (acts ++ [a]) i :=
  ⟨List.mem_append_left _ h.1, hstill⟩

theorem World.Exclusive.put (h : w.Exclusive)
    (hheld : ∀ l ∈ session.held, ∀ j, j ≠ i → l ∉ w.held j) : (w.put i session).Exclusive := by
  intro a b hab l hla
  by_cases ha : a = i
  · subst ha
    rw [held_put_self] at hla
    rw [held_put_of_ne (Ne.symm hab)]
    exact hheld l hla b (Ne.symm hab)
  · rw [held_put_of_ne ha] at hla
    by_cases hb : b = i
    · subst hb
      rw [held_put_self]
      exact fun hlb => hheld l hlb a ha hla
    · rw [held_put_of_ne hb]
      exact h a b hab l hla

theorem World.Exclusive.finish (h : w.Exclusive) : (w.finish i).Exclusive := by
  intro a b hab l hla
  have hfewer : ∀ j, (w.finish i).held j ⊆ w.held j := by
    intro j
    by_cases hj : j = i
    · subst hj
      rw [held_finish_self]
      exact List.nil_subset _
    · rw [held_finish_of_ne hj]
      exact List.Subset.refl _
  exact fun hlb => h a b hab l (hfewer a hla) (hfewer b hlb)

theorem Fits.put {acts : List (Act ι ν)} {s : σ} (h : Fits C acts w φs)
    (hheld : ∀ l ∈ session.held, ∀ j, j ≠ i → l ∉ w.held j) (hneeds : C.needs φ ⊆ session.held)
    (hcounted : φ ≠ C.idle → C.counted i) :
    Fits C (acts ++ [.advance i]) ((w.become s).put i session) (Function.update φs i φ) where
  exclusive := World.Exclusive.put (w := w.become s) h.exclusive hheld
  busy j hj := by
    by_cases hji : j = i
    · subst hji
      rw [Function.update_self] at hj
      exact ⟨hcounted hj, by simp, by simp [World.put]⟩
    · rw [Function.update_of_ne hji] at hj
      obtain ⟨hj, hbusy⟩ := h.busy j hj
      exact ⟨hj, hbusy.more (by simpa [World.put, World.become, hji] using hbusy.2)⟩
  needs j := by
    by_cases hji : j = i
    · subst hji
      rw [Function.update_self, held_put_self]
      exact hneeds
    · rw [Function.update_of_ne hji, held_put_of_ne hji]
      exact h.needs j

theorem Fits.finish {acts : List (Act ι ν)} {a : Act ι ν} (h : Fits C acts w φs) :
    Fits C (acts ++ [a]) (w.finish i) (Function.update φs i C.idle) where
  exclusive := h.exclusive.finish
  busy j hj := by
    by_cases hji : j = i
    · subst hji
      rw [Function.update_self] at hj
      exact absurd rfl hj
    · rw [Function.update_of_ne hji] at hj
      obtain ⟨hj, hbusy⟩ := h.busy j hj
      exact ⟨hj, hbusy.more (by simpa [World.finish, hji] using hbusy.2)⟩
  needs j := by
    by_cases hji : j = i
    · subst hji
      rw [Function.update_self, C.needs_idle]
      exact List.nil_subset _
    · rw [Function.update_of_ne hji, held_finish_of_ne hji]
      exact h.needs j

theorem Tracked.finish {acts : List (Act ι ν)} {a : Act ι ν} (h : Tracked C acts w φs) :
    Tracked C (acts ++ [a]) (w.finish i) (Function.update φs i C.idle) where
  toFits := h.toFits.finish
  inv := C.leave i h.inv
  sessions j session hsession := by
    by_cases hji : j = i
    · subst hji
      simp [World.finish] at hsession
    · rw [Function.update_of_ne hji]
      exact h.sessions j session (by simpa [World.finish, hji] using hsession)

theorem Tracked.move {acts : List (Act ι ν)} {s : σ} {next : Session σ κ μ ε}
    (h : Tracked C acts w φs) (hroom : ∀ φs, Fits C (acts ++ [.advance i])
      ((w.become s).put i next) φs → C.room φs)
    (hheld : ∀ l ∈ next.held, ∀ j, j ≠ i → l ∉ w.held j)
    (hmoves : C.Moves i next.held (φs i) φ w.committed s)
    (htrack : C.track i next.prog (fun _ _ _ _ => True) next.pending next.held φ) :
    Tracked C (acts ++ [.advance i]) ((w.become s).put i next) (Function.update φs i φ) :=
  have hfits := h.toFits.put (s := s) hheld hmoves.1 hmoves.2.1
  { toFits := hfits
    inv := hmoves.2.2 φs rfl h.inv (hroom _ hfits)
    sessions := fun j session hsession => by
      by_cases hji : j = i
      · subst hji
        have heq : next = session := by simpa [World.put] using hsession
        rw [Function.update_self, ← heq]
        exact htrack
      · rw [Function.update_of_ne hji]
        exact h.sessions j session (by simpa [World.put, World.become, hji] using hsession) }

variable [DecidableEq κ] [Fintype ι]

theorem Tracked.advance {acts : List (Act ι ν)} (h : Tracked C acts w φs)
    (hsession : w.sessions i = some session) (hstep : w.advance i session = some w')
    (hroom : ∀ φs, Fits C (acts ++ [.advance i]) w' φs → C.room φs) :
    ∃ φs', Tracked C (acts ++ [.advance i]) w' φs' := by
  have htrack := h.sessions i session hsession
  have hheld : w.held i = session.held := by simp [World.held, hsession]
  have hown : ∀ l ∈ session.held, ∀ j, j ≠ i → l ∉ w.held j := by
    intro l hl j hj
    exact h.exclusive i j (Ne.symm hj) l (hheld ▸ hl)
  have hmore : ∀ {l}, w.Free i l → ∀ k ∈ l :: session.held, ∀ j, j ≠ i → k ∉ w.held j := by
    intro l hfree k hk j hj
    rcases List.mem_cons.mp hk with rfl | hk
    · exact hfree j hj
    · exact hown k hk j hj
  have hneeds : C.needs (φs i) ⊆ session.held := hheld ▸ h.needs i
  have hcounted : φs i ≠ C.idle → C.counted i := fun hi => (h.busy i hi).1
  obtain ⟨prog, pending, held⟩ := session
  unfold World.advance at hstep
  cases prog with
  | ret a =>
    obtain rfl := Option.some.inj hstep
    exact ⟨_, h.finish⟩
  | fail e =>
    obtain rfl := Option.some.inj hstep
    exact ⟨_, h.finish⟩
  | query next =>
    obtain rfl := Option.some.inj hstep
    obtain ⟨φ, hmoves, hnext⟩ := htrack w.committed
    exact ⟨_, h.move hroom hown hmoves hnext⟩
  | write f next =>
    obtain rfl := Option.some.inj hstep
    exact ⟨_, h.move (s := w.committed) hroom hown (Phases.Moves.stay hneeds hcounted) htrack⟩
  | lock l next =>
    simp only at hstep
    split at hstep
    next hfree =>
      obtain rfl := Option.some.inj hstep
      exact ⟨_, h.move (s := w.committed) hroom (hmore hfree)
        (Phases.Moves.stay (List.subset_cons_of_subset _ hneeds) hcounted) htrack⟩
    next => cases hstep
  | tryLock l next =>
    simp only at hstep
    split at hstep
    next hfree =>
      obtain rfl := Option.some.inj hstep
      exact ⟨_, h.move (s := w.committed) hroom (hmore hfree)
        (Phases.Moves.stay (List.subset_cons_of_subset _ hneeds) hcounted) htrack.1⟩
    next =>
      obtain rfl := Option.some.inj hstep
      exact ⟨_, h.move (s := w.committed) hroom hown (Phases.Moves.stay hneeds hcounted) htrack.2⟩
  | commit m next =>
    obtain rfl := Option.some.inj hstep
    obtain ⟨φ, hmoves, hnext⟩ := htrack w.committed
    exact ⟨_, h.move hroom (fun l hl => (List.not_mem_nil hl).elim) hmoves hnext⟩
  | rollback next =>
    obtain rfl := Option.some.inj hstep
    obtain ⟨φ, hmoves, hnext⟩ := htrack
    exact ⟨_, h.move hroom (fun l hl => (List.not_mem_nil hl).elim) (hmoves w.committed) hnext⟩
  | effect m f next =>
    obtain rfl := Option.some.inj hstep
    obtain ⟨φ, hmoves, hnext⟩ := htrack w.committed
    exact ⟨_, h.move hroom hown hmoves hnext⟩

theorem Tracked.step {acts : List (Act ι ν)} {a : Act ι ν} (h : Tracked C acts w φs)
    (henv : ∀ e s φs, C.inv s φs → C.room φs → C.inv (env e s) φs)
    (hstep : World.step env a w = some w')
    (hroom : ∀ φs, Fits C (acts ++ [a]) w' φs → C.room φs) :
    ∃ φs', Tracked C (acts ++ [a]) w' φs' := by
  cases a with
  | advance i =>
    obtain ⟨session, hsession, hadvance⟩ := Option.bind_eq_some_iff.mp hstep
    exact h.advance hsession hadvance hroom
  | cancel i =>
    obtain ⟨_, _, rfl⟩ := Option.map_eq_some_iff.mp hstep
    exact ⟨_, h.finish⟩
  | env e =>
    obtain rfl := Option.some.inj hstep
    have hfits : Fits C (acts ++ [.env e]) (w.become (env e w.committed)) φs :=
      ⟨h.exclusive, fun i hi => ⟨(h.busy i hi).1, (h.busy i hi).2.more (h.busy i hi).2.2⟩, h.needs⟩
    exact ⟨φs, hfits, henv e _ φs h.inv (hroom _ hfits), h.sessions⟩

theorem tracked_of_run {s : σ} {progs : ι → Prog σ κ μ ε Unit}
    (henv : ∀ e s φs, C.inv s φs → C.room φs → C.inv (env e s) φs)
    (hinv : C.inv s fun _ => C.idle)
    (hprogs : ∀ i, C.track i (progs i) (fun _ _ _ _ => True) id [] C.idle)
    {acts : List (Act ι ν)} (hrun : Machine.run (World.step env) (start s progs) acts = some w)
    (hroom : ∀ before w', before <+: acts →
      Machine.run (World.step env) (start s progs) before = some w' →
      ∀ φs, Fits C before w' φs → C.room φs) : ∃ φs, Tracked C acts w φs := by
  induction acts using List.reverseRecOn generalizing w with
  | nil =>
    obtain rfl : start s progs = w := by simpa [Machine.run] using hrun
    refine ⟨fun _ => C.idle, ⟨fun a b _ l hl => ?_, fun i hi => absurd rfl hi, fun i => ?_⟩, hinv,
      fun i session hsession => ?_⟩
    · cases hl
    · rw [C.needs_idle]
      exact List.nil_subset _
    · obtain rfl := Option.some.inj hsession
      exact hprogs i
  | append_singleton acts a ih =>
    obtain ⟨m, hbefore, hlast⟩ := Machine.run_append.mp hrun
    obtain ⟨φs, hφs⟩ := ih hbefore fun before w' hfirst =>
      hroom before w' (hfirst.trans (List.prefix_append ..))
    obtain ⟨t, hstep, hend⟩ := Machine.run_cons.mp hlast
    obtain rfl : t = w := by simpa [Machine.run] using hend
    exact hφs.step henv hstep (hroom _ t (List.prefix_refl _) hrun)

end Runs

end Sessions
