import Mathlib.Data.Fintype.Basic
import Mathlib.Logic.Function.Basic
import Mathlib.Logic.Relation
import StockManager.Library.Machine

/-! # Database sessions

A session reads the committed state with its own writes on top. It may commit or
roll back on the way and go on in a new transaction, try a lock without waiting,
and act outside the transaction, at once and for all to see. Locks are exclusive
and end with the transaction. A mark says what a commit or an outside act is. -/

namespace Sessions

inductive Prog (σ κ μ ε α : Type)
  | ret (a : α)
  | fail (e : ε)
  | query (next : σ → Prog σ κ μ ε α)
  | write (f : σ → σ) (next : Prog σ κ μ ε α)
  | lock (l : κ) (next : Prog σ κ μ ε α)
  | tryLock (l : κ) (next : Bool → Prog σ κ μ ε α)
  | commit (m : μ) (next : Prog σ κ μ ε α)
  | rollback (next : Prog σ κ μ ε α)
  | effect (m : μ) (f : σ → σ) (next : Prog σ κ μ ε α)

namespace Prog

variable {σ κ μ ε α β : Type}

def andThen (g : α → Prog σ κ μ ε β) : Prog σ κ μ ε α → Prog σ κ μ ε β
  | ret a => g a
  | fail e => fail e
  | query next => query fun s => (next s).andThen g
  | write f next => write f (next.andThen g)
  | lock l next => lock l (next.andThen g)
  | tryLock l next => tryLock l fun free => (next free).andThen g
  | commit m next => commit m (next.andThen g)
  | rollback next => rollback (next.andThen g)
  | effect m f next => effect m f (next.andThen g)

instance : Monad (Prog σ κ μ ε) where
  pure := ret
  bind x g := x.andThen g

def ask (f : σ → α) : Prog σ κ μ ε α := query fun s => ret (f s)

def put (f : σ → σ) : Prog σ κ μ ε Unit := write f (ret ())

def take (l : κ) : Prog σ κ μ ε Unit := lock l (ret ())

def takeAll : List κ → Prog σ κ μ ε Unit
  | [] => ret ()
  | l :: rest => lock l (takeAll rest)

def tryTake (l : κ) : Prog σ κ μ ε Bool := tryLock l ret

def commitAs (m : μ) : Prog σ κ μ ε Unit := commit m (ret ())

def undo : Prog σ κ μ ε Unit := rollback (ret ())

def check (p : Prop) [Decidable p] (e : ε) : Prog σ κ μ ε Unit :=
  if p then ret () else fail e

def orRaise (o : Option α) (e : ε) : Prog σ κ μ ε α :=
  match o with
  | some a => ret a
  | none => fail e

/-- The committed state after the session, when no other runs. -/
def alone : Prog σ κ μ ε α → (pending : σ → σ) → σ → σ
  | ret _, _, s => s
  | fail _, _, s => s
  | query next, pending, s => (next (pending s)).alone pending s
  | write f next, pending, s => next.alone (f ∘ pending) s
  | lock _ next, pending, s => next.alone pending s
  | tryLock _ next, pending, s => (next true).alone pending s
  | commit _ next, pending, s => next.alone id (pending s)
  | rollback next, _, s => next.alone id s
  | effect _ f next, pending, s => next.alone pending (f s)

end Prog

/-- A session under way: what it has still to do, the writes of its transaction and
the locks it holds. -/
structure Session (σ κ μ ε : Type) where
  prog : Prog σ κ μ ε Unit
  pending : σ → σ
  held : List κ

structure World (ι σ κ μ ε : Type) where
  committed : σ
  sessions : ι → Option (Session σ κ μ ε)

/-- One session takes its next step or loses its connection, or the surroundings change. -/
inductive Act (ι ν : Type)
  | advance (i : ι)
  | cancel (i : ι)
  | env (e : ν)

variable {ι ν σ κ μ ε : Type}

def start (s : σ) (progs : ι → Prog σ κ μ ε Unit) : World ι σ κ μ ε :=
  ⟨s, fun i => some ⟨progs i, id, []⟩⟩

/-- The mark of the session's next step. -/
def Session.mark (session : Session σ κ μ ε) : Option μ :=
  match session.prog with
  | .commit m _ => some m
  | .effect m _ _ => some m
  | _ => none

namespace World

def held (w : World ι σ κ μ ε) (i : ι) : List κ :=
  match w.sessions i with
  | some session => session.held
  | none => []

variable [DecidableEq ι]

def put (w : World ι σ κ μ ε) (i : ι) (session : Session σ κ μ ε) : World ι σ κ μ ε :=
  { w with sessions := Function.update w.sessions i (some session) }

def finish (w : World ι σ κ μ ε) (i : ι) : World ι σ κ μ ε :=
  { w with sessions := Function.update w.sessions i none }

def become (w : World ι σ κ μ ε) (s : σ) : World ι σ κ μ ε := { w with committed := s }

variable [DecidableEq κ] [Fintype ι]

/-- No other session holds the lock. -/
def Free (w : World ι σ κ μ ε) (i : ι) (l : κ) : Prop := ∀ j, j ≠ i → l ∉ w.held j

instance (w : World ι σ κ μ ε) (i : ι) (l : κ) : Decidable (w.Free i l) :=
  inferInstanceAs (Decidable (∀ j, j ≠ i → l ∉ w.held j))

/-- The next step of a session; none while it waits for a lock. -/
def advance (w : World ι σ κ μ ε) (i : ι) (session : Session σ κ μ ε) :
    Option (World ι σ κ μ ε) :=
  match session.prog with
  | .ret _ => some (w.finish i)
  | .fail _ => some (w.finish i)
  | .query next => some (w.put i { session with prog := next (session.pending w.committed) })
  | .write f next => some (w.put i { session with prog := next, pending := f ∘ session.pending })
  | .lock l next =>
    if w.Free i l then some (w.put i { session with prog := next, held := l :: session.held })
    else none
  | .tryLock l next =>
    if w.Free i l then
      some (w.put i { session with prog := next true, held := l :: session.held })
    else some (w.put i { session with prog := next false })
  | .commit _ next => some ((w.become (session.pending w.committed)).put i ⟨next, id, []⟩)
  | .rollback next => some (w.put i ⟨next, id, []⟩)
  | .effect _ f next =>
    some ((w.become (f w.committed)).put i { session with prog := next })

variable (env : ν → σ → σ)

def step : Act ι ν → World ι σ κ μ ε → Option (World ι σ κ μ ε)
  | .advance i, w => (w.sessions i).bind (w.advance i)
  | .cancel i, w => (w.sessions i).map fun _ => w.finish i
  | .env e, w => some (w.become (env e w.committed))

omit [DecidableEq ι] [DecidableEq κ] [Fintype ι] in
/-- What is taken for granted of a marked step holds of the committed state. -/
def Granted (met : μ → σ → Prop) : Act ι ν → World ι σ κ μ ε → Prop
  | .advance i, w => ∀ session ∈ w.sessions i, ∀ m ∈ session.mark, met m w.committed
  | .cancel _, _ => True
  | .env _, _ => True

omit [DecidableEq ι] [DecidableEq κ] [Fintype ι] in
instance (met : μ → σ → Prop) [∀ m s, Decidable (met m s)] :
    (a : Act ι ν) → (w : World ι σ κ μ ε) → Decidable (Granted met a w)
  | .advance i, w =>
    inferInstanceAs (Decidable (∀ session ∈ w.sessions i, ∀ m ∈ session.mark, met m w.committed))
  | .cancel _, _ => .isTrue trivial
  | .env _, _ => .isTrue trivial

end World

/-! ### Proving an invariant of the committed state

Between two steps of a session others may act. What they leave as it was follows
from the session's name and the locks it holds (`rely`); in return its own commits
and outside acts keep to what others count on (`guar`). -/

structure Protocol (ι σ κ μ : Type) where
  inv : σ → Prop
  met : μ → σ → Prop
  rely : ι → List κ → σ → σ → Prop
  guar : ι → List κ → σ → σ → Prop
  rely_refl : ∀ i held s, rely i held s s
  rely_trans : ∀ {i held s t u}, rely i held s t → rely i held t u → rely i held s u
  others : ∀ {i j mine theirs s t}, i ≠ j → inv s → inv t → (∀ l ∈ mine, l ∉ theirs) →
    guar j theirs s t → rely i mine s t

/-- What holds when a program ends: its value, its writes and locks, and the
committed state. -/
abbrev Post (σ κ α : Type) : Type := α → (σ → σ) → List κ → σ → Prop

section Logic

variable (P : Protocol ι σ κ μ) (i : ι) {α β : Type}

def Later (held : List κ) (s t : σ) : Prop := P.rely i held s t ∧ P.inv t

def Keeps (held : List κ) (s t : σ) : Prop := P.inv t ∧ P.guar i held s t

def Bears (env : ν → σ → σ) : Prop :=
  ∀ e s, P.inv s → P.inv (env e s) ∧ ∀ j held, P.rely j held s (env e s)

def wp : Prog σ κ μ ε α → Post σ κ α → (σ → σ) → List κ → σ → Prop
  | .ret a, Q, pending, held, s => Q a pending held s
  | .fail _, _, _, _, _ => True
  | .query next, Q, pending, held, s =>
    ∀ t, Later P i held s t → wp (next (pending t)) Q pending held t
  | .write f next, Q, pending, held, s => wp next Q (f ∘ pending) held s
  | .lock l next, Q, pending, held, s =>
    ∀ t, Later P i held s t → wp next Q pending (l :: held) t
  | .tryLock l next, Q, pending, held, s => ∀ t, Later P i held s t →
    wp (next true) Q pending (l :: held) t ∧ wp (next false) Q pending held t
  | .commit m next, Q, pending, held, s => ∀ t, Later P i held s t → P.met m t →
    Keeps P i held t (pending t) ∧ wp next Q id [] (pending t)
  | .rollback next, Q, _, held, s => ∀ t, Later P i held s t → wp next Q id [] t
  | .effect m f next, Q, pending, held, s => ∀ t, Later P i held s t → P.met m t →
    Keeps P i held t (f t) ∧ wp next Q pending held (f t)

variable {P i} {held : List κ} {s t u : σ} {pending : σ → σ}

theorem Later.trans (h : Later P i held s t) (h' : Later P i held t u) : Later P i held s u :=
  ⟨P.rely_trans h.1 h'.1, h'.2⟩

theorem Later.refl (h : P.inv s) : Later P i held s s := ⟨P.rely_refl i held s, h⟩

def Under (P : Protocol ι σ κ μ) (i : ι) (locks : List κ) : σ → σ → Prop :=
  Relation.ReflTransGen fun s t => ∃ held, locks ⊆ held ∧ Later P i held s t

abbrev Sees (P : Protocol ι σ κ μ) (i : ι) : σ → σ → Prop := Under P i []

theorem Under.refl {locks : List κ} : Under P i locks s s := Relation.ReflTransGen.refl

theorem Under.later {locks : List κ} (h : Under P i locks s t) (hlocks : locks ⊆ held)
    (ht : Later P i held t u) : Under P i locks s u :=
  Relation.ReflTransGen.tail h ⟨held, hlocks, ht⟩

theorem Under.induct {locks : List κ} {R : σ → Prop} (h : Under P i locks s t) (hs : R s)
    (hstep : ∀ held u v, locks ⊆ held → Later P i held u v → R u → R v) : R t := by
  induction h with
  | refl => exact hs
  | tail _ hlater ih =>
    obtain ⟨held, hsub, hlater⟩ := hlater
    exact hstep held _ _ hsub hlater ih

theorem Under.of_subset {locks more : List κ} (hsub : locks ⊆ more) (h : Under P i more s t) :
    Under P i locks s t :=
  h.induct Under.refl fun _ _ _ hmore hlater hs => hs.later (List.Subset.trans hsub hmore) hlater

theorem Sees.refl : Sees P i s s := Under.refl

theorem Sees.later (h : Sees P i s t) (ht : Later P i held t u) : Sees P i s u :=
  Under.later h (List.nil_subset _) ht

theorem Sees.under {locks : List κ} (h : Sees P i s t) (ht : Under P i locks t u) : Sees P i s u :=
  Relation.ReflTransGen.trans h (ht.of_subset (List.nil_subset _))

theorem wp_andThen {x : Prog σ κ μ ε α} {g : α → Prog σ κ μ ε β} {Q : Post σ κ β} :
    wp P i (x.andThen g) Q pending held s ↔
      wp P i x (fun a pending held s => wp P i (g a) Q pending held s) pending held s := by
  induction x generalizing pending held s with
  | ret a => exact Iff.rfl
  | fail e => exact Iff.rfl
  | query next ih => exact forall₂_congr fun t _ => ih _
  | write f next ih => exact ih
  | lock l next ih => exact forall₂_congr fun t _ => ih
  | tryLock l next ih => exact forall₂_congr fun t _ => and_congr (ih _) (ih _)
  | commit m next ih => exact forall₃_congr fun t _ _ => and_congr Iff.rfl ih
  | rollback next ih => exact forall₂_congr fun t _ => ih
  | effect m f next ih => exact forall₃_congr fun t _ _ => and_congr Iff.rfl ih

@[simp] theorem wp_bind {x : Prog σ κ μ ε α} {g : α → Prog σ κ μ ε β} {Q : Post σ κ β} :
    wp P i (x >>= g) Q pending held s ↔
      wp P i x (fun a pending held s => wp P i (g a) Q pending held s) pending held s :=
  wp_andThen

@[simp] theorem wp_pure {a : α} {Q : Post σ κ α} :
    wp P i (pure a : Prog σ κ μ ε α) Q pending held s ↔ Q a pending held s := Iff.rfl

@[simp] theorem wp_ask {f : σ → α} {Q : Post σ κ α} :
    wp P i (Prog.ask f : Prog σ κ μ ε α) Q pending held s ↔
      ∀ t, Later P i held s t → Q (f (pending t)) pending held t := Iff.rfl

@[simp] theorem wp_put {f : σ → σ} {Q : Post σ κ Unit} :
    wp P i (Prog.put f : Prog σ κ μ ε Unit) Q pending held s ↔ Q () (f ∘ pending) held s := Iff.rfl

@[simp] theorem wp_take {l : κ} {Q : Post σ κ Unit} :
    wp P i (Prog.take l : Prog σ κ μ ε Unit) Q pending held s ↔
      ∀ t, Later P i held s t → Q () pending (l :: held) t := Iff.rfl

@[simp] theorem wp_tryTake {l : κ} {Q : Post σ κ Bool} :
    wp P i (Prog.tryTake l : Prog σ κ μ ε Bool) Q pending held s ↔ ∀ t, Later P i held s t →
      Q true pending (l :: held) t ∧ Q false pending held t := Iff.rfl

@[simp] theorem wp_commitAs {m : μ} {Q : Post σ κ Unit} :
    wp P i (Prog.commitAs m : Prog σ κ μ ε Unit) Q pending held s ↔
      ∀ t, Later P i held s t → P.met m t →
        Keeps P i held t (pending t) ∧ Q () id [] (pending t) := Iff.rfl

@[simp] theorem wp_undo {Q : Post σ κ Unit} :
    wp P i (Prog.undo : Prog σ κ μ ε Unit) Q pending held s ↔
      ∀ t, Later P i held s t → Q () id [] t := Iff.rfl

@[simp] theorem wp_fail {e : ε} {Q : Post σ κ α} :
    wp P i (Prog.fail e : Prog σ κ μ ε α) Q pending held s := trivial

@[simp] theorem wp_check {p : Prop} [Decidable p] {e : ε} {Q : Post σ κ Unit} :
    wp P i (Prog.check p e) Q pending held s ↔ (p → Q () pending held s) := by
  unfold Prog.check
  split
  next h => simp [h, wp]
  next h => simp [h, wp]

@[simp] theorem wp_orRaise {o : Option α} {e : ε} {Q : Post σ κ α} :
    wp P i (Prog.orRaise o e) Q pending held s ↔ ∀ a, o = some a → Q a pending held s := by
  cases o with
  | none => simp [Prog.orRaise]
  | some a => simp [Prog.orRaise, wp]

theorem wp_takeAll {locks : List κ} {Q : Post σ κ Unit} (ht : Sees P i s t)
    (hQ : ∀ more u, held ⊆ more → locks ⊆ more → Sees P i s u → Q () pending more u) :
    wp P i (Prog.takeAll locks : Prog σ κ μ ε Unit) Q pending held t := by
  induction locks generalizing held t with
  | nil => exact hQ held t (List.Subset.refl _) (List.nil_subset _) ht
  | cons l rest ih =>
    intro u hu
    refine ih (ht.later hu) fun more v hmore hrest hv => ?_
    have hl : l ∈ more := hmore (List.mem_cons_self ..)
    exact hQ more v (List.Subset.trans (List.subset_cons_self ..) hmore)
      (List.cons_subset.mpr ⟨hl, hrest⟩) hv

theorem wp_later {x : Prog σ κ μ ε Unit} (h : wp P i x (fun _ _ _ _ => True) pending held s)
    (hst : Later P i held s t) : wp P i x (fun _ _ _ _ => True) pending held t := by
  induction x generalizing pending held s t with
  | ret a => trivial
  | fail e => trivial
  | query next ih => exact fun u hu => h u (hst.trans hu)
  | write f next ih => exact ih h hst
  | lock l next ih => exact fun u hu => h u (hst.trans hu)
  | tryLock l next ih => exact fun u hu => h u (hst.trans hu)
  | commit m next ih => exact fun u hu => h u (hst.trans hu)
  | rollback next ih => exact fun u hu => h u (hst.trans hu)
  | effect m f next ih => exact fun u hu => h u (hst.trans hu)

theorem inv_alone {x : Prog σ κ μ ε α} {Q : Post σ κ α} (hmet : ∀ m s, P.met m s)
    (h : wp P i x Q pending held s) (hinv : P.inv s) : P.inv (x.alone pending s) := by
  induction x generalizing pending held s with
  | ret a => exact hinv
  | fail e => exact hinv
  | query next ih => exact ih _ (h s (Later.refl hinv)) hinv
  | write f next ih => exact ih h hinv
  | lock l next ih => exact ih (h s (Later.refl hinv)) hinv
  | tryLock l next ih => exact ih true (h s (Later.refl hinv)).1 hinv
  | commit m next ih =>
    obtain ⟨hkeeps, hnext⟩ := h s (Later.refl hinv) (hmet m s)
    exact ih hnext hkeeps.1
  | rollback next ih => exact ih (h s (Later.refl hinv)) hinv
  | effect m f next ih =>
    obtain ⟨hkeeps, hnext⟩ := h s (Later.refl hinv) (hmet m s)
    exact ih hnext hkeeps.1

def Protocol.solo (inv : σ → Prop) : Protocol Unit σ κ μ where
  inv := inv
  met _ _ := True
  rely _ _ s t := s = t
  guar _ _ _ _ := True
  rely_refl _ _ _ := rfl
  rely_trans h h' := h.trans h'
  others hne := absurd (Subsingleton.elim _ _) hne

theorem under_solo {inv : σ → Prop} {locks : List κ}
    (h : Under (Protocol.solo inv : Protocol Unit σ κ μ) () locks s t) : s = t :=
  h.induct rfl fun _ _ _ _ hlater heq => heq.trans hlater.1

theorem keeps_solo {inv : σ → Prop} :
    Keeps (Protocol.solo inv : Protocol Unit σ κ μ) () held s t ↔ inv t :=
  ⟨fun h => h.1, fun h => ⟨h, trivial⟩⟩

theorem inv_alone_of_solo {inv : σ → Prop} {x : Prog σ κ μ ε α} {Q : Post σ κ α}
    (h : wp (Protocol.solo inv) () x Q id [] s) (hinv : inv s) : inv (x.alone id s) :=
  inv_alone (P := Protocol.solo inv) (fun _ _ => trivial) h hinv

end Logic

section Soundness

variable [DecidableEq ι] {P : Protocol ι σ κ μ} {w w' : World ι σ κ μ ε} {i : ι}
  {session : Session σ κ μ ε}

theorem held_put_self : (w.put i session).held i = session.held := by
  simp [World.held, World.put]

theorem held_put_of_ne {j : ι} (h : j ≠ i) : (w.put i session).held j = w.held j := by
  simp [World.held, World.put, h]

theorem held_finish_self : (w.finish i).held i = [] := by simp [World.held, World.finish]

theorem held_finish_of_ne {j : ι} (h : j ≠ i) : (w.finish i).held j = w.held j := by
  simp [World.held, World.finish, h]

/-- Every session under way is as its program wants it, and no lock is held twice. -/
structure Sound (P : Protocol ι σ κ μ) (w : World ι σ κ μ ε) : Prop where
  inv : P.inv w.committed
  exclusive : ∀ i j, i ≠ j → ∀ l ∈ w.held i, l ∉ w.held j
  sessions : ∀ i, ∀ session ∈ w.sessions i,
    wp P i session.prog (fun _ _ _ _ => True) session.pending session.held w.committed

omit [DecidableEq ι] in
theorem Sound.later (h : Sound P w) (held : List κ) :
    Later P i held w.committed w.committed := Later.refl h.inv

theorem Sound.put (h : Sound P w)
    (hfree : ∀ l ∈ session.held, ∀ j, j ≠ i → l ∉ w.held j)
    (hwp : wp P i session.prog (fun _ _ _ _ => True) session.pending session.held w.committed) :
    Sound P (w.put i session) := by
  refine ⟨h.inv, fun a b hab l hla => ?exclusive, fun a other hother => ?sessions⟩
  case exclusive =>
    by_cases ha : a = i
    · subst ha
      rw [held_put_self] at hla
      rw [held_put_of_ne (Ne.symm hab)]
      exact hfree l hla b (Ne.symm hab)
    · rw [held_put_of_ne ha] at hla
      by_cases hb : b = i
      · subst hb
        rw [held_put_self]
        exact fun hlb => hfree l hlb a ha hla
      · rw [held_put_of_ne hb]
        exact h.exclusive a b hab l hla
  case sessions =>
    by_cases ha : a = i
    · subst ha
      have heq : session = other := by simpa [World.put] using hother
      exact heq ▸ hwp
    · have hold : w.sessions a = some other := by simpa [World.put, ha] using hother
      exact h.sessions a other hold

theorem Sound.finish (h : Sound P w) : Sound P (w.finish i) := by
  refine ⟨h.inv, fun a b hab l hla => ?exclusive, fun a other hother => ?sessions⟩
  case exclusive =>
    by_cases ha : a = i
    · subst ha
      rw [held_finish_self] at hla
      cases hla
    · rw [held_finish_of_ne ha] at hla
      by_cases hb : b = i
      · subst hb
        rw [held_finish_self]
        exact List.not_mem_nil
      · rw [held_finish_of_ne hb]
        exact h.exclusive a b hab l hla
  case sessions =>
    by_cases ha : a = i
    · subst ha
      simp [World.finish] at hother
    · have hold : w.sessions a = some other := by simpa [World.finish, ha] using hother
      exact h.sessions a other hold

omit [DecidableEq ι] in
theorem Sound.become {s : σ} (h : Sound P w) (hinv : P.inv s)
    (hrely : ∀ j, ∀ session ∈ w.sessions j, P.rely j session.held w.committed s) :
    Sound P (w.become s) :=
  ⟨hinv, h.exclusive, fun j session hsession =>
    wp_later (h.sessions j session hsession) ⟨hrely j session hsession, hinv⟩⟩

theorem Sound.change {s : σ} {next : Session σ κ μ ε} (h : Sound P w)
    (hsession : w.sessions i = some session) (hkeeps : Keeps P i session.held w.committed s)
    (hheld : next.held ⊆ session.held)
    (hwp : wp P i next.prog (fun _ _ _ _ => True) next.pending next.held s) :
    Sound P ((w.become s).put i next) := by
  have hown : w.held i = session.held := by simp [World.held, hsession]
  have hrest : Sound P ((w.finish i).become s) := by
    refine h.finish.become hkeeps.1 fun j other hother => ?_
    have hne : j ≠ i := by
      intro hj
      subst hj
      simp [World.finish] at hother
    have hold : w.sessions j = some other := by simpa [World.finish, hne] using hother
    have hheldj : w.held j = other.held := by simp [World.held, hold]
    refine P.others hne h.inv hkeeps.1 ?_ hkeeps.2
    rw [← hheldj, ← hown]
    exact h.exclusive j i hne
  have hput : ((w.finish i).become s).put i next = (w.become s).put i next := by
    simp [World.put, World.become, World.finish]
  rw [← hput]
  refine hrest.put (fun l hl j hj => ?_) hwp
  have hfinish : ((w.finish i).become s).held j = w.held j := held_finish_of_ne hj
  rw [hfinish]
  exact h.exclusive i j (Ne.symm hj) l (hown ▸ hheld hl)

variable [DecidableEq κ] [Fintype ι]

theorem sound_advance (h : Sound P w) (hsession : w.sessions i = some session)
    (hmet : ∀ m ∈ session.mark, P.met m w.committed) (hstep : w.advance i session = some w') :
    Sound P w' := by
  have hwp := h.sessions i session hsession
  have hheld : w.held i = session.held := by simp [World.held, hsession]
  have hown : ∀ l ∈ session.held, ∀ j, j ≠ i → l ∉ w.held j := by
    intro l hl j hj
    exact h.exclusive i j (Ne.symm hj) l (hheld ▸ hl)
  have hmore : ∀ {l}, w.Free i l → ∀ k ∈ l :: session.held, ∀ j, j ≠ i → k ∉ w.held j := by
    intro l hfree k hk j hj
    rcases List.mem_cons.mp hk with rfl | hk
    · exact hfree j hj
    · exact hown k hk j hj
  obtain ⟨prog, pending, held⟩ := session
  unfold World.advance at hstep
  cases prog with
  | ret a =>
    obtain rfl := Option.some.inj hstep
    exact h.finish
  | fail e =>
    obtain rfl := Option.some.inj hstep
    exact h.finish
  | query next =>
    obtain rfl := Option.some.inj hstep
    exact h.put hown (hwp _ (h.later held))
  | write f next =>
    obtain rfl := Option.some.inj hstep
    exact h.put hown hwp
  | lock l next =>
    simp only at hstep
    split at hstep
    next hfree =>
      obtain rfl := Option.some.inj hstep
      exact h.put (hmore hfree) (hwp _ (h.later held))
    next => cases hstep
  | tryLock l next =>
    simp only at hstep
    obtain ⟨htaken, hdenied⟩ := hwp _ (h.later held)
    split at hstep
    next hfree =>
      obtain rfl := Option.some.inj hstep
      exact h.put (hmore hfree) htaken
    next =>
      obtain rfl := Option.some.inj hstep
      exact h.put hown hdenied
  | commit m next =>
    obtain rfl := Option.some.inj hstep
    obtain ⟨hkeeps, hnext⟩ := hwp _ (h.later held) (hmet m rfl)
    exact h.change hsession hkeeps (List.nil_subset _) hnext
  | rollback next =>
    obtain rfl := Option.some.inj hstep
    exact h.put (fun l hl => (List.not_mem_nil hl).elim) (hwp _ (h.later held))
  | effect m f next =>
    obtain rfl := Option.some.inj hstep
    obtain ⟨hkeeps, hnext⟩ := hwp _ (h.later held) (hmet m rfl)
    exact h.change hsession hkeeps (List.Subset.refl _) hnext

variable {env : ν → σ → σ}

theorem sound_step {a : Act ι ν} (henv : Bears P env) (h : Sound P w) (hmet : World.Granted P.met a w) (hstep : World.step env a w = some w') :
    Sound P w' := by
  cases a with
  | advance i =>
    obtain ⟨session, hsession, hadvance⟩ := Option.bind_eq_some_iff.mp hstep
    exact sound_advance h hsession (hmet session hsession) hadvance
  | cancel i =>
    obtain ⟨_, _, rfl⟩ := Option.map_eq_some_iff.mp hstep
    exact h.finish
  | env e =>
    obtain rfl := Option.some.inj hstep
    exact h.become (henv e _ h.inv).1 fun j session _ => (henv e _ h.inv).2 j session.held

/-- In every run whose marked steps are granted what they need, the invariant holds of
the committed state at every moment. -/
theorem inv_of_run {s : σ} {progs : ι → Prog σ κ μ ε Unit}
    (henv : Bears P env) (hinv : P.inv s)
    (hprogs : ∀ i, wp P i (progs i) (fun _ _ _ _ => True) id [] s) {acts : List (Act ι ν)}
    (hmet : Machine.Meets (World.step env) (World.Granted P.met) (start s progs) acts)
    (hrun : Machine.run (World.step env) (start s progs) acts = some w) : P.inv w.committed := by
  have hstart : Sound P (start s progs) := by
    refine ⟨hinv, fun a b _ l hl => ?_, fun i session hsession => ?_⟩
    · cases hl
    · obtain rfl := Option.some.inj hsession
      exact hprogs i
  exact (Machine.run_invariant_of_meets (fun _ _ _ hw hm hstep => sound_step henv hw hm hstep)
    hstart hmet hrun).inv

theorem inv_of_any_run {s : σ} {progs : ι → Prog σ κ μ ε Unit} (henv : Bears P env)
    (hmet : ∀ m s, P.met m s) (hinv : P.inv s)
    (hprogs : ∀ i, wp P i (progs i) (fun _ _ _ _ => True) id [] s) {acts : List (Act ι ν)}
    (hrun : Machine.run (World.step env) (start s progs) acts = some w) : P.inv w.committed := by
  refine inv_of_run henv hinv hprogs (Machine.meets_of_forall (fun a w => ?_) _ acts) hrun
  cases a with
  | advance i => exact fun _ _ _ _ => hmet _ _
  | cancel i => trivial
  | env e => trivial

end Soundness

end Sessions
