import Mathlib.Data.Fintype.Basic
import Mathlib.Logic.Function.Basic
import StockManager.Library.Machine

/-! # Transactions that run at the same time

A transaction reads the committed state with its own writes on top, takes
exclusive locks that it keeps until it ends, and commits all its writes in one
step. `relies` marks a place where it goes on as if a statement about the
committed state held; a transaction ends with the statement its commit relies on. -/

namespace Transactions

inductive Tx (σ κ ε α : Type)
  | ret (a : α)
  | fail (e : ε)
  | query (next : σ → Tx σ κ ε α)
  | write (f : σ → σ) (next : Tx σ κ ε α)
  | lock (l : κ) (next : Tx σ κ ε α)
  | relies (p : σ → Bool) (next : Tx σ κ ε α)

namespace Tx

variable {σ κ ε δ α β : Type}

def andThen (g : α → Tx σ κ ε β) : Tx σ κ ε α → Tx σ κ ε β
  | ret a => g a
  | fail e => fail e
  | query next => query fun s => (next s).andThen g
  | write f next => write f (next.andThen g)
  | lock l next => lock l (next.andThen g)
  | relies p next => relies p (next.andThen g)

instance : Monad (Tx σ κ ε) where
  pure := ret
  bind x g := x.andThen g

def read : Tx σ κ ε σ := query ret

def put (f : σ → σ) : Tx σ κ ε Unit := write f (ret ())

def take (l : κ) : Tx σ κ ε Unit := lock l (ret ())

def assume (p : σ → Prop) [DecidablePred p] : Tx σ κ ε Unit := relies (fun s => p s) (ret ())

def ofExcept : Except ε α → Tx σ κ ε α
  | .ok a => ret a
  | .error e => fail e

def mapError (g : ε → δ) : Tx σ κ ε α → Tx σ κ δ α
  | ret a => ret a
  | fail e => fail (g e)
  | query next => query fun s => (next s).mapError g
  | write f next => write f (next.mapError g)
  | lock l next => lock l (next.mapError g)
  | relies p next => relies p (next.mapError g)

/-- A computation on what the transaction reads at this moment. -/
def ask (f : σ → Except ε α) : Tx σ κ ε α := query fun s => ofExcept (f s)

def check (p : Prop) [Decidable p] (e : ε) : Tx σ κ ε Unit :=
  if p then ret () else fail e

def orRaise (o : Option α) (e : ε) : Tx σ κ ε α :=
  match o with
  | some a => ret a
  | none => fail e

def takeAll : List κ → Tx σ κ ε Unit
  | [] => ret ()
  | l :: rest => lock l (takeAll rest)

end Tx

/-- A transaction under way: what it has still to do, its writes so far and its locks. -/
structure Session (σ κ ε : Type) where
  tx : Tx σ κ ε (σ → Bool)
  pending : σ → σ
  held : List κ

/-- What the next step relies on. -/
def Session.reliance {σ κ ε : Type} (session : Session σ κ ε) : σ → Bool :=
  match session.tx with
  | .relies p _ => p
  | .ret q => q
  | _ => fun _ => true

/-- The log names the transactions that have committed, the last one first. -/
structure World (ι σ κ ε : Type) where
  committed : σ
  sessions : ι → Option (Session σ κ ε)
  log : List ι

/-- One transaction takes its next step, or is rolled back. -/
inductive Act (ι : Type)
  | advance (i : ι)
  | rollback (i : ι)

variable {ι σ κ ε : Type}

def start (s : σ) (txs : ι → Tx σ κ ε (σ → Bool)) : World ι σ κ ε :=
  ⟨s, fun i => some ⟨txs i, id, []⟩, []⟩

namespace World

def held (w : World ι σ κ ε) (i : ι) : List κ :=
  match w.sessions i with
  | some session => session.held
  | none => []

variable [DecidableEq ι]

def put (w : World ι σ κ ε) (i : ι) (session : Session σ κ ε) : World ι σ κ ε :=
  { w with sessions := Function.update w.sessions i (some session) }

def finish (w : World ι σ κ ε) (i : ι) : World ι σ κ ε :=
  { w with sessions := Function.update w.sessions i none }

/-- Every write of the transaction reaches the committed state, its locks are free. -/
def commit (w : World ι σ κ ε) (i : ι) (session : Session σ κ ε) : World ι σ κ ε :=
  { w.finish i with committed := session.pending w.committed, log := i :: w.log }

variable [DecidableEq κ] [Fintype ι]

/-- The next step of a transaction; none while it waits for a lock. -/
def advance (w : World ι σ κ ε) (i : ι) (session : Session σ κ ε) : Option (World ι σ κ ε) :=
  match session.tx with
  | .ret _ => some (w.commit i session)
  | .fail _ => some (w.finish i)
  | .query next => some (w.put i { session with tx := next (session.pending w.committed) })
  | .write f next => some (w.put i { session with tx := next, pending := f ∘ session.pending })
  | .lock l next =>
    if ∀ j, j ≠ i → l ∉ w.held j then
      some (w.put i { session with tx := next, held := l :: session.held })
    else none
  | .relies _ next => some (w.put i { session with tx := next })

def step : Act ι → World ι σ κ ε → Option (World ι σ κ ε)
  | .advance i, w => (w.sessions i).bind (w.advance i)
  | .rollback i, w => (w.sessions i).map fun _ => w.finish i

omit [DecidableEq ι] [DecidableEq κ] [Fintype ι] in
/-- What the step relies on holds of the committed state. -/
def Reliable : Act ι → World ι σ κ ε → Prop
  | .rollback _, _ => True
  | .advance i, w => ∀ session ∈ w.sessions i, session.reliance w.committed = true

omit [DecidableEq ι] [DecidableEq κ] [Fintype ι] in
instance : (a : Act ι) → (w : World ι σ κ ε) → Decidable (Reliable a w)
  | .rollback _, _ => .isTrue trivial
  | .advance i, w => inferInstanceAs (Decidable (∀ session ∈ w.sessions i, _))

end World

/-! ### Proving an invariant of the committed state

Between two steps of a transaction others may commit. What they leave as it was
follows from the locks it holds (`rely`); in return its own commit leaves alone
what belongs to the locks it does not hold (`guar`). -/

structure Protocol (ι σ κ : Type) where
  inv : List ι → σ → Prop
  rely : List κ → σ → σ → Prop
  guar : List κ → σ → σ → Prop
  rely_refl : ∀ held s, rely held s s
  rely_trans : ∀ {held s t u}, rely held s t → rely held t u → rely held s u
  rely_mono : ∀ {mine more s t}, mine ⊆ more → rely more s t → rely mine s t
  others : ∀ {mine theirs s t log log'}, inv log s → inv log' t →
    (∀ l ∈ mine, l ∉ theirs) → guar theirs s t → rely mine s t

def Protocol.ofViews {V : Type} (inv : List ι → σ → Prop) (view : κ → σ → V) :
    Protocol ι σ κ where
  inv := inv
  rely held s t := ∀ l ∈ held, view l t = view l s
  guar held s t := ∀ l, l ∉ held → view l t = view l s
  rely_refl _ _ _ _ := rfl
  rely_trans h h' l hl := (h' l hl).trans (h l hl)
  rely_mono hsub h l hl := h l (hsub hl)
  others _ _ hapart hguar l hl := hguar l (hapart l hl)

/-- What holds when a transaction ends: its value, its writes and locks, and the
committed state. -/
abbrev Post (σ κ α : Type) : Type := α → (σ → σ) → List κ → σ → Prop

section Logic

variable (P : Protocol ι σ κ) {α β : Type}

def Later (held : List κ) (s t : σ) : Prop := P.rely held s t ∧ ∃ log, P.inv log t

def wp : Tx σ κ ε α → Post σ κ α → (σ → σ) → List κ → σ → Prop
  | .ret a, Q, pending, held, s => Q a pending held s
  | .fail _, _, _, _, _ => True
  | .query next, Q, pending, held, s =>
    ∀ t, Later P held s t → wp (next (pending t)) Q pending held t
  | .write f next, Q, pending, held, s => wp next Q (f ∘ pending) held s
  | .lock l next, Q, pending, held, s => ∀ t, Later P held s t → wp next Q pending (l :: held) t
  | .relies p next, Q, pending, held, s =>
    ∀ t, Later P held s t → p t = true → wp next Q pending held t

def Commits (i : ι) : Post σ κ (σ → Bool) := fun q pending held s =>
  ∀ log t, P.rely held s t → P.inv log t → q t = true →
    P.inv (i :: log) (pending t) ∧ P.guar held t (pending t)

def Stable (A : List κ → σ → Prop) : Prop :=
  ∀ held s t, A held s → Later P held s t → A held t

variable {P} {held : List κ} {s t u : σ} {pending : σ → σ}

theorem Later.trans (h : Later P held s t) (h' : Later P held t u) : Later P held s u :=
  ⟨P.rely_trans h.1 h'.1, h'.2⟩

theorem Later.refl {log : List ι} (h : P.inv log s) : Later P held s s :=
  ⟨P.rely_refl held s, log, h⟩

theorem Later.mono {more : List κ} (hsub : held ⊆ more) (h : Later P more s t) :
    Later P held s t :=
  ⟨P.rely_mono hsub h.1, h.2⟩

theorem wp_andThen {x : Tx σ κ ε α} {g : α → Tx σ κ ε β} {Q : Post σ κ β} :
    wp P (x.andThen g) Q pending held s ↔
      wp P x (fun a pending held s => wp P (g a) Q pending held s) pending held s := by
  induction x generalizing pending held s with
  | ret a => exact Iff.rfl
  | fail e => exact Iff.rfl
  | query next ih => exact forall₂_congr fun t _ => ih _
  | write f next ih => exact ih
  | lock l next ih => exact forall₂_congr fun t _ => ih
  | relies p next ih => exact forall₃_congr fun t _ _ => ih

@[simp] theorem wp_bind {x : Tx σ κ ε α} {g : α → Tx σ κ ε β} {Q : Post σ κ β} :
    wp P (x >>= g) Q pending held s ↔
      wp P x (fun a pending held s => wp P (g a) Q pending held s) pending held s :=
  wp_andThen

@[simp] theorem wp_pure {a : α} {Q : Post σ κ α} :
    wp P (pure a : Tx σ κ ε α) Q pending held s ↔ Q a pending held s := Iff.rfl

@[simp] theorem wp_read {Q : Post σ κ σ} :
    wp P (Tx.read : Tx σ κ ε σ) Q pending held s ↔
      ∀ t, Later P held s t → Q (pending t) pending held t := Iff.rfl

@[simp] theorem wp_put {f : σ → σ} {Q : Post σ κ Unit} :
    wp P (Tx.put f : Tx σ κ ε Unit) Q pending held s ↔ Q () (f ∘ pending) held s := Iff.rfl

@[simp] theorem wp_take {l : κ} {Q : Post σ κ Unit} :
    wp P (Tx.take l : Tx σ κ ε Unit) Q pending held s ↔
      ∀ t, Later P held s t → Q () pending (l :: held) t := Iff.rfl

@[simp] theorem wp_assume {p : σ → Prop} [DecidablePred p] {Q : Post σ κ Unit} :
    wp P (Tx.assume p : Tx σ κ ε Unit) Q pending held s ↔
      ∀ t, Later P held s t → p t → Q () pending held t := by
  simp only [Tx.assume, wp, decide_eq_true_eq]

@[simp] theorem wp_ofExcept {x : Except ε α} {Q : Post σ κ α} :
    wp P (Tx.ofExcept x) Q pending held s ↔ ∀ a, x = .ok a → Q a pending held s := by
  cases x with
  | error e => simp [Tx.ofExcept, wp]
  | ok a => simp [Tx.ofExcept, wp]

@[simp] theorem wp_ask {f : σ → Except ε α} {Q : Post σ κ α} :
    wp P (Tx.ask f) Q pending held s ↔
      ∀ t, Later P held s t → ∀ a, f (pending t) = .ok a → Q a pending held t :=
  forall₂_congr fun _ _ => wp_ofExcept

@[simp] theorem wp_check {p : Prop} [Decidable p] {e : ε} {Q : Post σ κ Unit} :
    wp P (Tx.check p e) Q pending held s ↔ (p → Q () pending held s) := by
  unfold Tx.check
  split
  next h => simp [h, wp]
  next h => simp [h, wp]

@[simp] theorem wp_orRaise {o : Option α} {e : ε} {Q : Post σ κ α} :
    wp P (Tx.orRaise o e) Q pending held s ↔ ∀ a, o = some a → Q a pending held s := by
  cases o with
  | none => simp [Tx.orRaise, wp]
  | some a => simp [Tx.orRaise, wp]

@[simp] theorem wp_mapError {δ : Type} {x : Tx σ κ ε α} {g : ε → δ} {Q : Post σ κ α} :
    wp P (x.mapError g) Q pending held s ↔ wp P x Q pending held s := by
  induction x generalizing pending held s with
  | ret a => exact Iff.rfl
  | fail e => exact Iff.rfl
  | query next ih => exact forall₂_congr fun t _ => ih _
  | write f next ih => exact ih
  | lock l next ih => exact forall₂_congr fun t _ => ih
  | relies p next ih => exact forall₃_congr fun t _ _ => ih

theorem wp_takeAll {locks : List κ} {Q : Post σ κ Unit} (hs : Later P held s s)
    (hQ : ∀ more t, held ⊆ more → locks ⊆ more → Later P held s t → Q () pending more t) :
    wp P (Tx.takeAll locks : Tx σ κ ε Unit) Q pending held s := by
  induction locks generalizing held s with
  | nil => exact hQ held s (List.Subset.refl _) (List.nil_subset _) hs
  | cons l rest ih =>
    intro t ht
    have hsub : held ⊆ l :: held := List.subset_cons_self ..
    apply ih (Later.refl ht.2.choose_spec)
    intro more u hmore hrest hu
    have hl : l ∈ more := hmore (List.mem_cons_self ..)
    exact hQ more u (List.Subset.trans hsub hmore) (List.cons_subset.mpr ⟨hl, hrest⟩)
      (ht.trans (hu.mono hsub))

theorem wp_later {x : Tx σ κ ε α} {Q : Post σ κ α}
    (hQ : ∀ a pending, Stable P (Q a pending)) (h : wp P x Q pending held s)
    (hst : Later P held s t) : wp P x Q pending held t := by
  induction x generalizing pending held s t with
  | ret a => exact hQ a pending held s t h hst
  | fail e => exact h
  | query next ih => exact fun u hu => h u (hst.trans hu)
  | write f next ih => exact ih h hst
  | lock l next ih => exact fun u hu => h u (hst.trans hu)
  | relies p next ih => exact fun u hu hp => h u (hst.trans hu) hp

theorem commits_stable {i : ι} (q : σ → Bool) (pending : σ → σ) :
    Stable P (Commits P i q pending) :=
  fun _ _ _ h hst log _ hrely => h log _ (P.rely_trans hst.1 hrely)

end Logic

section Soundness

variable [DecidableEq ι] {P : Protocol ι σ κ} {w w' : World ι σ κ ε} {i : ι}
  {session : Session σ κ ε}

theorem held_put_self : (w.put i session).held i = session.held := by
  simp [World.held, World.put]

theorem held_put_of_ne {j : ι} (h : j ≠ i) : (w.put i session).held j = w.held j := by
  simp [World.held, World.put, h]

theorem held_finish_self : (w.finish i).held i = [] := by simp [World.held, World.finish]

theorem held_finish_of_ne {j : ι} (h : j ≠ i) : (w.finish i).held j = w.held j := by
  simp [World.held, World.finish, h]

/-- Every transaction under way is as its program wants it, and no lock is held twice. -/
structure Sound (P : Protocol ι σ κ) (w : World ι σ κ ε) : Prop where
  inv : P.inv w.log w.committed
  exclusive : ∀ i j, i ≠ j → ∀ l ∈ w.held i, l ∉ w.held j
  sessions : ∀ i, ∀ session ∈ w.sessions i,
    wp P session.tx (Commits P i) session.pending session.held w.committed

omit [DecidableEq ι] in
theorem Sound.later (h : Sound P w) (held : List κ) : Later P held w.committed w.committed :=
  Later.refl h.inv

theorem Sound.put (h : Sound P w)
    (hfree : ∀ l ∈ session.held, ∀ j, j ≠ i → l ∉ w.held j)
    (hwp : wp P session.tx (Commits P i) session.pending session.held w.committed) :
    Sound P (w.put i session) := by
  constructor
  case inv => exact h.inv
  case exclusive =>
    intro a b hab l hla
    by_cases ha : a = i
    · subst ha
      rw [held_put_self] at hla
      rw [held_put_of_ne (Ne.symm hab)]
      exact hfree l hla b (Ne.symm hab)
    · rw [held_put_of_ne ha] at hla
      by_cases hb : b = i
      · subst hb
        rw [held_put_self]
        exact fun hlb => hfree l hlb a ha hla
      · rw [held_put_of_ne hb]
        exact h.exclusive a b hab l hla
  case sessions =>
    intro a other hother
    by_cases ha : a = i
    · subst ha
      have heq : session = other := by simpa [World.put] using hother
      exact heq ▸ hwp
    · have hold : w.sessions a = some other := by simpa [World.put, ha] using hother
      exact h.sessions a other hold

theorem Sound.finish (h : Sound P w) : Sound P (w.finish i) := by
  constructor
  case inv => exact h.inv
  case exclusive =>
    intro a b hab l hla
    by_cases ha : a = i
    · subst ha
      rw [held_finish_self] at hla
      cases hla
    · rw [held_finish_of_ne ha] at hla
      by_cases hb : b = i
      · subst hb
        rw [held_finish_self]
        exact List.not_mem_nil
      · rw [held_finish_of_ne hb]
        exact h.exclusive a b hab l hla
  case sessions =>
    intro a other hother
    by_cases ha : a = i
    · subst ha
      simp [World.finish] at hother
    · have hold : w.sessions a = some other := by simpa [World.finish, ha] using hother
      exact h.sessions a other hold

theorem Sound.commit (h : Sound P w) (hsession : w.sessions i = some session)
    (hinv : P.inv (i :: w.log) (session.pending w.committed))
    (hguar : P.guar session.held w.committed (session.pending w.committed)) :
    Sound P (w.commit i session) := by
  have hfinish : Sound P (w.finish i) := h.finish
  have hheld : w.held i = session.held := by simp [World.held, hsession]
  constructor
  case inv => exact hinv
  case exclusive => exact hfinish.exclusive
  case sessions =>
    intro a other hother
    have hne : a ≠ i := by
      intro ha
      subst ha
      simp [World.commit, World.finish] at hother
    have hold : w.sessions a = some other := by
      simpa [World.commit, World.finish, hne] using hother
    have hother : w.held a = other.held := by simp [World.held, hold]
    have hapart : ∀ l ∈ other.held, l ∉ session.held := by
      rw [← hother, ← hheld]
      exact h.exclusive a i hne
    have hrely : P.rely other.held w.committed (session.pending w.committed) :=
      P.others h.inv hinv hapart hguar
    exact wp_later commits_stable (h.sessions a other hold) ⟨hrely, _, hinv⟩

variable [DecidableEq κ] [Fintype ι]

theorem sound_advance (h : Sound P w) (hsession : w.sessions i = some session)
    (hreliable : World.Reliable (.advance i) w) (hstep : w.advance i session = some w') :
    Sound P w' := by
  have hwp := h.sessions i session hsession
  have hheld : w.held i = session.held := by simp [World.held, hsession]
  have hown : ∀ l ∈ session.held, ∀ j, j ≠ i → l ∉ w.held j := by
    intro l hl j hj
    exact h.exclusive i j (Ne.symm hj) l (hheld ▸ hl)
  have hcond := hreliable session hsession
  obtain ⟨tx, pending, held⟩ := session
  unfold World.advance at hstep
  cases tx with
  | ret q =>
    obtain rfl := Option.some.inj hstep
    obtain ⟨hinv, hguar⟩ := hwp w.log w.committed (P.rely_refl ..) h.inv hcond
    exact h.commit hsession hinv hguar
  | fail e =>
    obtain rfl := Option.some.inj hstep
    exact h.finish
  | query next =>
    obtain rfl := Option.some.inj hstep
    exact h.put hown (hwp _ (h.later held))
  | write f next =>
    obtain rfl := Option.some.inj hstep
    exact h.put hown hwp
  | lock l next =>
    simp only at hstep
    split at hstep
    next hfree =>
      obtain rfl := Option.some.inj hstep
      apply h.put
      · intro k hk j hj
        rcases List.mem_cons.mp hk with rfl | hk
        · exact hfree j hj
        · exact hown k hk j hj
      · exact hwp _ (h.later held)
    next => cases hstep
  | relies p next =>
    obtain rfl := Option.some.inj hstep
    exact h.put hown (hwp _ (h.later held) hcond)

theorem sound_step {a : Act ι} (h : Sound P w) (hreliable : World.Reliable a w)
    (hstep : World.step a w = some w') : Sound P w' := by
  cases a with
  | advance i =>
    obtain ⟨session, hsession, hadvance⟩ := Option.bind_eq_some_iff.mp hstep
    exact sound_advance h hsession hreliable hadvance
  | rollback i =>
    obtain ⟨_, _, rfl⟩ := Option.map_eq_some_iff.mp hstep
    exact h.finish

theorem sound_of_run {s : σ} {txs : ι → Tx σ κ ε (σ → Bool)} (hinv : P.inv [] s)
    (htxs : ∀ i, wp P (txs i) (Commits P i) id [] s) {acts : List (Act ι)}
    (hmet : Machine.Meets World.step World.Reliable (start s txs) acts)
    (hrun : Machine.run World.step (start s txs) acts = some w) : Sound P w := by
  have hstart : Sound P (start s txs) := by
    constructor
    case inv => exact hinv
    case exclusive =>
      intro a b _ l hl
      cases hl
    case sessions =>
      intro i session hsession
      obtain rfl := Option.some.inj hsession
      exact htxs i
  exact Machine.run_invariant_of_meets (fun _ _ _ hs hr hstep => sound_step hs hr hstep) hstart hmet hrun

theorem guar_of_step {a : Act ι} (h : Sound P w) (hreliable : World.Reliable a w)
    (hstep : World.step a w = some w') :
    w'.committed = w.committed ∨ ∃ held, P.guar held w.committed w'.committed := by
  cases a with
  | rollback i =>
    obtain ⟨_, _, rfl⟩ := Option.map_eq_some_iff.mp hstep
    exact .inl rfl
  | advance i =>
    obtain ⟨session, hsession, hadvance⟩ := Option.bind_eq_some_iff.mp hstep
    have hwp := h.sessions i session hsession
    have hcond := hreliable session hsession
    obtain ⟨tx, pending, held⟩ := session
    unfold World.advance at hadvance
    cases tx with
    | ret q =>
      obtain rfl := Option.some.inj hadvance
      exact .inr ⟨held, (hwp w.log w.committed (P.rely_refl ..) h.inv hcond).2⟩
    | lock l next =>
      simp only at hadvance
      split at hadvance
      next =>
        obtain rfl := Option.some.inj hadvance
        exact .inl rfl
      next => cases hadvance
    | fail e | query next | write f next | relies p next =>
      obtain rfl := Option.some.inj hadvance
      exact .inl rfl

/-- In every run whose steps can rely on what they rely on, the invariant holds of
the committed state at every moment. -/
theorem inv_of_run {s : σ} {txs : ι → Tx σ κ ε (σ → Bool)} (hinv : P.inv [] s)
    (htxs : ∀ i, wp P (txs i) (Commits P i) id [] s) {acts : List (Act ι)}
    (hmet : Machine.Meets World.step World.Reliable (start s txs) acts)
    (hrun : Machine.run World.step (start s txs) acts = some w) : P.inv w.log w.committed :=
  (sound_of_run hinv htxs hmet hrun).inv

end Soundness

end Transactions
