import Mathlib.Data.Fintype.Basic
import Mathlib.Logic.Function.Basic
import StockManager.Library.Machine

/-! # Transactions with savepoints

A transaction reads the committed state with its own writes on top and commits
them in one step. A write holds the keys of its rows in the unique indexes until
it is undone or the transaction ends: another write of such a key waits, and one
that finds the key in the table violates the index. -/

namespace Savepoints

/-- What a write does to the state, the keys it holds, and the index it violates. -/
structure Store (σ ω κ γ : Type) where
  apply : ω → σ → σ
  keys : ω → List κ
  clash : ω → σ → Option γ

namespace Store

variable {σ ω κ γ : Type} (S : Store σ ω κ γ)

def applyAll (writes : List ω) (s : σ) : σ := writes.foldl (fun s o => S.apply o s) s

@[simp] theorem applyAll_nil (s : σ) : S.applyAll [] s = s := rfl

@[simp] theorem applyAll_cons (o : ω) (writes : List ω) (s : σ) :
    S.applyAll (o :: writes) s = S.applyAll writes (S.apply o s) := rfl

@[simp] theorem applyAll_append (xs ys : List ω) (s : σ) :
    S.applyAll (xs ++ ys) s = S.applyAll ys (S.applyAll xs s) := List.foldl_append ..

end Store

/-- `write` goes on with the index that is violated, if one is; a savepoint is the number
of writes made so far. -/
inductive Prog (σ ω γ ε α : Type)
  | ret (a : α)
  | fail (e : ε)
  | query (next : σ → Prog σ ω γ ε α)
  | write (o : ω) (next : Option γ → Prog σ ω γ ε α)
  | savepoint (next : ℕ → Prog σ ω γ ε α)
  | rollbackTo (n : ℕ) (next : Prog σ ω γ ε α)

namespace Prog

variable {σ ω γ ε δ α β : Type}

def andThen (g : α → Prog σ ω γ ε β) : Prog σ ω γ ε α → Prog σ ω γ ε β
  | ret a => g a
  | fail e => fail e
  | query next => query fun s => (next s).andThen g
  | write o next => write o fun c => (next c).andThen g
  | savepoint next => savepoint fun n => (next n).andThen g
  | rollbackTo n next => rollbackTo n (next.andThen g)

instance : Monad (Prog σ ω γ ε) where
  pure := ret
  bind x g := x.andThen g

def ask (f : σ → α) : Prog σ ω γ ε α := query fun s => ret (f s)

def ofExcept : Except ε α → Prog σ ω γ ε α
  | .ok a => ret a
  | .error e => fail e

/-- A write that may find its key taken. -/
def tryPut (o : ω) : Prog σ ω γ ε (Option γ) := write o ret

/-- A write that raises when it finds its key taken. -/
def put (o : ω) (raised : γ → ε) : Prog σ ω γ ε Unit :=
  write o fun c => c.elim (ret ()) fun index => fail (raised index)

/-- What becomes of a program inside a savepoint: when it fails its writes are undone. -/
def settle (n : ℕ) : Prog σ ω γ ε α → Prog σ ω γ δ (Except ε α)
  | ret a => ret (.ok a)
  | fail e => rollbackTo n (ret (.error e))
  | query next => query fun s => (next s).settle n
  | write o next => write o fun c => (next c).settle n
  | savepoint next => savepoint fun m => (next m).settle n
  | rollbackTo m next => rollbackTo m (next.settle n)

def nested (x : Prog σ ω γ ε α) : Prog σ ω γ δ (Except ε α) := savepoint fun n => x.settle n

end Prog

variable {ι ν σ ω κ γ ε α : Type}

/-- A transaction under way, with the state it began in. -/
structure Session (σ ω γ ε α : Type) where
  prog : Prog σ ω γ ε α
  writes : List ω
  origin : σ

inductive Phase (σ ω γ ε α : Type)
  | idle
  | running (session : Session σ ω γ ε α)
  | ended

/-- A transaction that has committed: what it returned, what it wrote, and the states it
began and committed in. -/
structure Ending (ι σ ω α : Type) where
  who : ι
  result : α
  writes : List ω
  origin : σ
  before : σ

structure World (ι σ ω γ ε α : Type) where
  committed : σ
  phases : ι → Phase σ ω γ ε α
  log : List (Ending ι σ ω α)

/-- A transaction begins, takes its next step or loses its connection, or the
surroundings change. -/
inductive Act (ι ν : Type)
  | begin (i : ι)
  | advance (i : ι)
  | cancel (i : ι)
  | env (e : ν)

def start (s : σ) : World ι σ ω γ ε α := ⟨s, fun _ => .idle, []⟩

namespace World

def session? (w : World ι σ ω γ ε α) (i : ι) : Option (Session σ ω γ ε α) :=
  match w.phases i with
  | .running session => some session
  | _ => none

variable (S : Store σ ω κ γ)

/-- The keys the uncommitted writes of a transaction hold. -/
def held (w : World ι σ ω γ ε α) (i : ι) : List κ :=
  ((w.session? i).elim [] (·.writes)).flatMap S.keys

variable [DecidableEq ι]

def enter (w : World ι σ ω γ ε α) (i : ι) (phase : Phase σ ω γ ε α) : World ι σ ω γ ε α :=
  { w with phases := Function.update w.phases i phase }

/-- Every write of the transaction reaches the committed state. -/
def commit (w : World ι σ ω γ ε α) (i : ι) (session : Session σ ω γ ε α) (a : α) :
    World ι σ ω γ ε α :=
  { w.enter i .ended with
    committed := S.applyAll session.writes w.committed
    log := ⟨i, a, session.writes, session.origin, w.committed⟩ :: w.log }

variable [DecidableEq κ] [Fintype ι]

/-- The next step of a transaction; none while it waits for a key. -/
def advance (w : World ι σ ω γ ε α) (i : ι) (session : Session σ ω γ ε α) :
    Option (World ι σ ω γ ε α) :=
  match session.prog with
  | .ret a => some (w.commit S i session a)
  | .fail _ => some (w.enter i .ended)
  | .query next =>
    some (w.enter i (.running
      { session with prog := next (S.applyAll session.writes w.committed) }))
  | .write o next =>
    if ∀ j, j ≠ i → ∀ k ∈ S.keys o, k ∉ w.held S j then
      match S.clash o (S.applyAll session.writes w.committed) with
      | some c => some (w.enter i (.running { session with prog := next (some c) }))
      | none =>
        some (w.enter i (.running
          { session with prog := next none, writes := session.writes ++ [o] }))
    else none
  | .savepoint next =>
    some (w.enter i (.running { session with prog := next session.writes.length }))
  | .rollbackTo n next =>
    some (w.enter i (.running { session with prog := next, writes := session.writes.take n }))

variable (env : ν → σ → σ) (progs : ι → Prog σ ω γ ε α)

def step : Act ι ν → World ι σ ω γ ε α → Option (World ι σ ω γ ε α)
  | .begin i, w =>
    match w.phases i with
    | .idle => some (w.enter i (.running ⟨progs i, [], w.committed⟩))
    | _ => none
  | .advance i, w => (w.session? i).bind (w.advance S i)
  | .cancel i, w => (w.session? i).map fun _ => w.enter i .ended
  | .env e, w => some { w with committed := env e w.committed }

/-- Whoever begins gets on with those that are under way. -/
def Apart (compat : ι → ι → Prop) : Act ι ν → World ι σ ω γ ε α → Prop
  | .begin i, w => ∀ j, (w.session? j).isSome → compat i j
  | _, _ => True

instance (compat : ι → ι → Prop) [∀ i j, Decidable (compat i j)] :
    (a : Act ι ν) → (w : World ι σ ω γ ε α) → Decidable (Apart compat a w)
  | .begin i, w => inferInstanceAs (Decidable (∀ j, (w.session? j).isSome → compat i j))
  | .advance _, _ => .isTrue trivial
  | .cancel _, _ => .isTrue trivial
  | .env _, _ => .isTrue trivial

end World

/-! ### What holds in every run

Others may act between two steps of a transaction; what they leave as it was is
`rely`. In return its own commit keeps to `guar`. Only transactions that are
`compat` run at the same time. -/

structure Protocol (ι σ ω α : Type) where
  inv : σ → Prop
  compat : ι → ι → Prop
  rely : ι → σ → σ → Prop
  guar : ι → σ → σ → Prop
  post : ι → σ → α → List ω → σ → Prop
  compat_symm : ∀ {i j}, compat i j → compat j i
  rely_refl : ∀ i s, rely i s s
  rely_trans : ∀ {i s t u}, rely i s t → rely i t u → rely i s u
  others : ∀ {i j s t}, i ≠ j → compat i j → guar j s t → rely i s t

section Logic

variable (S : Store σ ω κ γ) (P : Protocol ι σ ω α) (i : ι) {β δ : Type}

def Later (s t : σ) : Prop := P.rely i s t ∧ P.inv t

def wp : Prog σ ω γ δ β → (β → List ω → σ → Prop) → (δ → List ω → σ → Prop) →
    List ω → σ → Prop
  | .ret a, Q, _, writes, s => Q a writes s
  | .fail e, _, E, writes, s => E e writes s
  | .query next, Q, E, writes, s =>
    ∀ t, Later P i s t → wp (next (S.applyAll writes t)) Q E writes t
  | .write o next, Q, E, writes, s => ∀ t, Later P i s t →
    (S.clash o (S.applyAll writes t) = none → wp (next none) Q E (writes ++ [o]) t) ∧
    ∀ c, S.clash o (S.applyAll writes t) = some c → wp (next (some c)) Q E writes t
  | .savepoint next, Q, E, writes, s => wp (next writes.length) Q E writes s
  | .rollbackTo n next, Q, E, writes, s => wp next Q E (writes.take n) s

variable {S P i} {writes : List ω} {s t u : σ} {Q : β → List ω → σ → Prop}
  {E : δ → List ω → σ → Prop}

theorem Later.refl (h : P.inv s) : Later P i s s := ⟨P.rely_refl i s, h⟩

theorem Later.trans (h : Later P i s t) (h' : Later P i t u) : Later P i s u :=
  ⟨P.rely_trans h.1 h'.1, h'.2⟩

@[simp] theorem wp_pure {a : β} : wp S P i (pure a : Prog σ ω γ δ β) Q E writes s ↔ Q a writes s :=
  Iff.rfl

@[simp] theorem wp_fail {e : δ} : wp S P i (Prog.fail e : Prog σ ω γ δ β) Q E writes s ↔
    E e writes s := Iff.rfl

@[simp] theorem wp_ask {f : σ → β} : wp S P i (Prog.ask f : Prog σ ω γ δ β) Q E writes s ↔
    ∀ t, Later P i s t → Q (f (S.applyAll writes t)) writes t := Iff.rfl

theorem wp_tryPut {o : ω} {Q : Option γ → List ω → σ → Prop} :
    wp S P i (Prog.tryPut o : Prog σ ω γ δ (Option γ)) Q E writes s ↔ ∀ t, Later P i s t →
      (S.clash o (S.applyAll writes t) = none → Q none (writes ++ [o]) t) ∧
      ∀ c, S.clash o (S.applyAll writes t) = some c → Q (some c) writes t := Iff.rfl

theorem wp_put {o : ω} {raised : γ → δ} {Q : Unit → List ω → σ → Prop} :
    wp S P i (Prog.put o raised : Prog σ ω γ δ Unit) Q E writes s ↔ ∀ t, Later P i s t →
      (S.clash o (S.applyAll writes t) = none → Q () (writes ++ [o]) t) ∧
      ∀ c, S.clash o (S.applyAll writes t) = some c → E (raised c) writes t := Iff.rfl

@[simp] theorem wp_ofExcept {x : Except δ β} :
    wp S P i (Prog.ofExcept x : Prog σ ω γ δ β) Q E writes s ↔
      (∀ a, x = .ok a → Q a writes s) ∧ ∀ e, x = .error e → E e writes s := by
  cases x with
  | ok a => simp [Prog.ofExcept, wp]
  | error e => simp [Prog.ofExcept]

theorem wp_andThen {β' : Type} {x : Prog σ ω γ δ β'} {g : β' → Prog σ ω γ δ β} :
    wp S P i (x.andThen g) Q E writes s ↔
      wp S P i x (fun a writes s => wp S P i (g a) Q E writes s) E writes s := by
  induction x generalizing writes s with
  | ret a => exact Iff.rfl
  | fail e => exact Iff.rfl
  | query next ih => exact forall₂_congr fun t _ => ih _
  | write o next ih =>
    exact forall₂_congr fun t _ =>
      and_congr (imp_congr_right fun _ => ih _) (forall₂_congr fun c _ => ih _)
  | savepoint next ih => exact ih _
  | rollbackTo n next ih => exact ih

@[simp] theorem wp_bind {β' : Type} {x : Prog σ ω γ δ β'} {g : β' → Prog σ ω γ δ β} :
    wp S P i (x >>= g) Q E writes s ↔
      wp S P i x (fun a writes s => wp S P i (g a) Q E writes s) E writes s := wp_andThen

theorem wp_settle {δ' : Type} {n : ℕ} {x : Prog σ ω γ δ' β}
    {Q : Except δ' β → List ω → σ → Prop} :
    wp S P i (x.settle n : Prog σ ω γ δ (Except δ' β)) Q E writes s ↔
      wp S P i x (fun a writes s => Q (.ok a) writes s)
        (fun e writes s => Q (.error e) (writes.take n) s) writes s := by
  induction x generalizing writes s with
  | ret a => exact Iff.rfl
  | fail e => exact Iff.rfl
  | query next ih => exact forall₂_congr fun t _ => ih _
  | write o next ih =>
    exact forall₂_congr fun t _ =>
      and_congr (imp_congr_right fun _ => ih _) (forall₂_congr fun c _ => ih _)
  | savepoint next ih => exact ih _
  | rollbackTo m next ih => exact ih

theorem wp_nested {δ' : Type} {x : Prog σ ω γ δ' β} {Q : Except δ' β → List ω → σ → Prop} :
    wp S P i (x.nested : Prog σ ω γ δ (Except δ' β)) Q E writes s ↔
      wp S P i x (fun a more s => Q (.ok a) more s)
        (fun e more s => Q (.error e) (more.take writes.length) s) writes s := wp_settle

theorem wp_later (hQ : ∀ a writes s t, Later P i s t → Q a writes s → Q a writes t)
    (hE : ∀ e writes s t, Later P i s t → E e writes s → E e writes t)
    {x : Prog σ ω γ δ β} (h : wp S P i x Q E writes s) (ht : Later P i s t) :
    wp S P i x Q E writes t := by
  induction x generalizing writes with
  | ret a => exact hQ a writes s t ht h
  | fail e => exact hE e writes s t ht h
  | query next ih => exact fun u hu => h u (ht.trans hu)
  | write o next ih => exact fun u hu => h u (ht.trans hu)
  | savepoint next ih => exact ih _ h
  | rollbackTo n next ih => exact ih h

end Logic

section Soundness

variable {S : Store σ ω κ γ} {P : Protocol ι σ ω α} {i : ι}

/-- What a commit owes: the invariant, what others rely on, and its own result. -/
structure Settles (S : Store σ ω κ γ) (P : Protocol ι σ ω α) (i : ι) (origin : σ) (a : α)
    (writes : List ω) (s : σ) : Prop where
  inv : P.inv (S.applyAll writes s)
  guar : P.guar i s (S.applyAll writes s)
  post : P.post i origin a writes s

def Ends (S : Store σ ω κ γ) (P : Protocol ι σ ω α) (i : ι) (origin : σ) (a : α)
    (writes : List ω) (s : σ) : Prop :=
  ∀ t, Later P i s t → Settles S P i origin a writes t

def GoesWell (S : Store σ ω κ γ) (P : Protocol ι σ ω α) (i : ι) (session : Session σ ω γ ε α)
    (s : σ) : Prop :=
  wp S P i session.prog (Ends S P i session.origin) (fun _ _ _ => True) session.writes s

theorem GoesWell.later {session : Session σ ω γ ε α} {s t : σ} (h : GoesWell S P i session s)
    (ht : Later P i s t) : GoesWell S P i session t :=
  wp_later (fun _ _ _ _ hlater hends u hu => hends u (hlater.trans hu)) (fun _ _ _ _ _ _ => trivial)
    h ht

structure Sound (S : Store σ ω κ γ) (P : Protocol ι σ ω α) (w : World ι σ ω γ ε α) : Prop where
  inv : P.inv w.committed
  compat : ∀ i j, i ≠ j → (w.session? i).isSome → (w.session? j).isSome → P.compat i j
  sessions : ∀ i, ∀ session ∈ w.session? i, GoesWell S P i session w.committed
  log : ∀ e ∈ w.log, P.post e.who e.origin e.result e.writes e.before

variable [DecidableEq ι] {w w' : World ι σ ω γ ε α}

namespace World

theorem session?_enter_running {session : Session σ ω γ ε α} :
    (w.enter i (.running session)).session? i = some session := by
  simp [session?, enter]

theorem session?_enter_ended : (w.enter i .ended).session? i = none := by
  simp [session?, enter]

theorem session?_enter_ne {j : ι} {phase : Phase σ ω γ ε α} (h : j ≠ i) :
    (w.enter i phase).session? j = w.session? j := by
  simp [session?, enter, h]

end World

open World

theorem Sound.enter {session : Session σ ω γ ε α} (h : Sound S P w)
    (hcompat : ∀ j, j ≠ i → (w.session? j).isSome → P.compat i j)
    (hwell : GoesWell S P i session w.committed) : Sound S P (w.enter i (.running session)) := by
  refine ⟨h.inv, fun a b hab ha hb => ?_, fun j other hother => ?_, h.log⟩
  · by_cases hai : a = i
    · subst hai
      rw [session?_enter_ne (Ne.symm hab)] at hb
      exact hcompat b (Ne.symm hab) hb
    · rw [session?_enter_ne hai] at ha
      by_cases hbi : b = i
      · subst hbi
        exact P.compat_symm (hcompat a hai ha)
      · rw [session?_enter_ne hbi] at hb
        exact h.compat a b hab ha hb
  · by_cases hj : j = i
    · subst hj
      rw [session?_enter_running] at hother
      exact Option.mem_some_iff.mp hother ▸ hwell
    · rw [session?_enter_ne hj] at hother
      exact h.sessions j other hother

theorem Sound.leave (h : Sound S P w) : Sound S P (w.enter i .ended) := by
  have hkeep : ∀ j, (w.enter i .ended).session? j = if j = i then none else w.session? j := by
    intro j
    by_cases hj : j = i
    · subst hj
      rw [session?_enter_ended, if_pos rfl]
    · rw [session?_enter_ne hj, if_neg hj]
  refine ⟨h.inv, fun a b hab ha hb => ?_, fun j other hother => ?_, h.log⟩
  · rw [hkeep] at ha hb
    split at ha
    next => cases ha
    next =>
      split at hb
      next => cases hb
      next => exact h.compat a b hab ha hb
  · rw [hkeep] at hother
    split at hother
    next => cases hother
    next => exact h.sessions j other hother

theorem Sound.commit {session : Session σ ω γ ε α} {a : α} (h : Sound S P w)
    (hsession : w.session? i = some session)
    (hends : Settles S P i session.origin a session.writes w.committed) :
    Sound S P (w.commit S i session a) := by
  have hleft : Sound S P (w.enter i .ended) := h.leave
  refine ⟨hends.inv, hleft.compat, fun j other hother => ?_, fun e he => ?_⟩
  · have hj : j ≠ i := by
      intro hj
      subst hj
      have hnone : (w.enter j .ended).session? j = some other := hother
      rw [session?_enter_ended] at hnone
      cases hnone
    have hold : w.session? j = some other := by
      have hnow : (w.enter i .ended).session? j = some other := hother
      rwa [session?_enter_ne hj] at hnow
    have hcompat : P.compat j i := h.compat j i hj (by simp [hold]) (by simp [hsession])
    exact (h.sessions j other hold).later ⟨P.others hj hcompat hends.guar, hends.inv⟩
  · rcases List.mem_cons.mp he with rfl | he
    · exact hends.post
    · exact h.log e he

variable [DecidableEq κ] [Fintype ι]

theorem sound_advance {session : Session σ ω γ ε α} (h : Sound S P w)
    (hsession : w.session? i = some session) (hstep : w.advance S i session = some w') :
    Sound S P w' := by
  have hwell := h.sessions i session hsession
  have hcompat : ∀ j, j ≠ i → (w.session? j).isSome → P.compat i j :=
    fun j hj hsome => h.compat i j (Ne.symm hj) (by simp [hsession]) hsome
  have hnow : Later P i w.committed w.committed := Later.refl h.inv
  obtain ⟨prog, writes, origin⟩ := session
  unfold World.advance at hstep
  cases prog with
  | ret a =>
    obtain rfl := Option.some.inj hstep
    exact h.commit hsession (hwell _ hnow)
  | fail e =>
    obtain rfl := Option.some.inj hstep
    exact h.leave
  | query next =>
    obtain rfl := Option.some.inj hstep
    exact h.enter hcompat (hwell _ hnow)
  | write o next =>
    simp only at hstep
    obtain ⟨hfree, htaken⟩ := hwell _ hnow
    split at hstep
    next =>
      split at hstep
      next c hc =>
        obtain rfl := Option.some.inj hstep
        exact h.enter hcompat (htaken c hc)
      next hnone =>
        obtain rfl := Option.some.inj hstep
        exact h.enter hcompat (hfree hnone)
    next => cases hstep
  | savepoint next =>
    obtain rfl := Option.some.inj hstep
    exact h.enter hcompat hwell
  | rollbackTo n next =>
    obtain rfl := Option.some.inj hstep
    exact h.enter hcompat hwell

def Bears (P : Protocol ι σ ω α) (env : ν → σ → σ) : Prop :=
  ∀ e s, P.inv s → P.inv (env e s) ∧ ∀ i, P.rely i s (env e s)

variable {env : ν → σ → σ} {progs : ι → Prog σ ω γ ε α}

theorem sound_step {a : Act ι ν} (henv : Bears P env)
    (hprogs : ∀ i s, P.inv s → GoesWell S P i ⟨progs i, [], s⟩ s) (h : Sound S P w)
    (hapart : World.Apart P.compat a w) (hstep : World.step S env progs a w = some w') :
    Sound S P w' := by
  cases a with
  | begin i =>
    simp only [World.step] at hstep
    split at hstep
    next =>
      obtain rfl := Option.some.inj hstep
      exact h.enter (fun j _ hsome => hapart j hsome) (hprogs i _ h.inv)
    next => cases hstep
  | advance i =>
    obtain ⟨session, hsession, hadvance⟩ := Option.bind_eq_some_iff.mp hstep
    exact sound_advance h hsession hadvance
  | cancel i =>
    obtain ⟨_, _, rfl⟩ := Option.map_eq_some_iff.mp hstep
    exact h.leave
  | env e =>
    obtain rfl := Option.some.inj hstep
    obtain ⟨hinv, hrely⟩ := henv e _ h.inv
    exact ⟨hinv, h.compat, fun i session hsession => (h.sessions i session hsession).later
      ⟨hrely i, hinv⟩, h.log⟩

/-- In every run in which only compatible transactions are under way at the same time, the
invariant holds at every moment and every commit has the result it owes. -/
theorem sound_of_run {s : σ} (henv : Bears P env) (hinv : P.inv s)
    (hprogs : ∀ i s, P.inv s → GoesWell S P i ⟨progs i, [], s⟩ s) {acts : List (Act ι ν)}
    (hapart : Machine.Meets (World.step S env progs) (World.Apart P.compat) (start s) acts)
    (hrun : Machine.run (World.step S env progs) (start s) acts = some w) : Sound S P w := by
  have hstart : Sound S P (start s : World ι σ ω γ ε α) := by
    refine ⟨hinv, fun i j _ hi => ?_, fun i session hsession => ?_, fun e he => ?_⟩
    · cases hi
    · cases hsession
    · cases he
  exact Machine.run_invariant_of_meets
    (fun _ _ _ hw hm hstep => sound_step henv hprogs hw hm hstep) hstart hapart hrun

theorem sound_of_any_run {s : σ} (henv : Bears P env) (hall : ∀ i j, P.compat i j)
    (hinv : P.inv s) (hprogs : ∀ i s, P.inv s → GoesWell S P i ⟨progs i, [], s⟩ s)
    {acts : List (Act ι ν)}
    (hrun : Machine.run (World.step S env progs) (start s) acts = some w) : Sound S P w := by
  refine sound_of_run henv hinv hprogs (Machine.meets_of_forall (fun a w => ?_) _ acts) hrun
  cases a with
  | begin i => exact fun j _ => hall i j
  | advance i => trivial
  | cancel i => trivial
  | env e => trivial

end Soundness

end Savepoints
