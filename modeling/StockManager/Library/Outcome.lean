import Mathlib.Logic.Relation
import Mathlib.Tactic.Common

/-! # Fallible steps and runs of transactions

A step that may raise is an `Except`. The lemmas below take a successful
`do` block apart one bind at a time, follow a fallible loop, and follow a run
of calls each of which is committed when it returns and rolled back when it
raises. -/

namespace Outcome

variable {ε α β σ : Type} {s t : σ} {l : List α} {f : α → Except ε β} {x : Except ε α}
  {r : List β} {e : ε} {a : α} {b : β} {p : Prop} {I : σ → Prop}

def check (p : Prop) [Decidable p] (e : ε) : Except ε Unit := if p then .ok () else .error e

def orRaise (o : Option α) (e : ε) : Except ε α :=
  match o with
  | some a => .ok a
  | none => .error e

theorem bind_ok :
    (x >>= f) = .ok b ↔ ∃ a, x = .ok a ∧ f a = .ok b := by
  cases x with
  | error e => simp [bind, Except.bind]
  | ok a => simp [bind, Except.bind]

theorem check_ok [Decidable p] {u : Unit} :
    check p e = .ok u ↔ p := by
  unfold check
  split
  next h => simp [h]
  next h => simp [h]

theorem pure_ok {a b : α} : (pure a : Except ε α) = .ok b ↔ a = b := by
  simp [pure, Except.pure]

theorem check_bind_ok [Decidable p] {f : Unit → Except ε β} :
    (check p e >>= f) = .ok b ↔ p ∧ f () = .ok b := by
  rw [bind_ok]
  constructor
  · rintro ⟨_, hcheck, hrest⟩
    exact ⟨check_ok.mp hcheck, hrest⟩
  · rintro ⟨hp, hrest⟩
    exact ⟨(), check_ok.mpr hp, hrest⟩

theorem orRaise_ok {o : Option α} : orRaise o e = .ok a ↔ o = some a := by
  cases o <;> simp [orRaise]

theorem bind_error (h : (x >>= f) = .error e) :
    x = .error e ∨ ∃ a, x = .ok a ∧ f a = .error e := by
  cases x with
  | error e' =>
    cases h
    exact .inl rfl
  | ok a => exact .inr ⟨a, rfl, h⟩

theorem check_error [Decidable p] {e e' : ε} (h : check p e = .error e') : e' = e := by
  unfold check at h
  split at h
  · cases h
  · cases h
    rfl

theorem orRaise_error {o : Option α} {e e' : ε} (h : orRaise o e = .error e') : e' = e := by
  cases o with
  | none =>
    cases h
    rfl
  | some a => cases h

theorem ok_unique {a b : α} (ha : x = .ok a) (hb : x = .ok b) : a = b :=
  Except.ok.inj (ha.symm.trans hb)

theorem toOption_eq_some : x.toOption = some a ↔ x = .ok a := by
  cases x <;> simp [Except.toOption]

theorem exists_ok (h : x.toOption.isSome = true) : ∃ a, x = .ok a :=
  (Option.isSome_iff_exists.mp h).imp fun _ => toOption_eq_some.mp

theorem map_ok {f : α → β} :
    x.map f = .ok b ↔ ∃ a, x = .ok a ∧ f a = b := by
  cases x <;> simp [Except.map]

theorem mapError_ok {δ : Type} {f : ε → δ} :
    x.mapError f = .ok a ↔ x = .ok a := by
  cases x <;> simp [Except.mapError]

/-- Run a check on every element; the first that raises ends the loop. -/
def each (f : α → Except ε Unit) : List α → Except ε Unit
  | [] => .ok ()
  | a :: rest => f a >>= fun _ => each f rest

theorem each_ok {f : α → Except ε Unit} {u : Unit} :
    each f l = .ok u ↔ ∀ a ∈ l, f a = .ok () := by
  induction l with
  | nil => simp [each]
  | cons a l ih =>
    rw [each, bind_ok]
    simp only [ih, List.mem_cons, forall_eq_or_imp]
    exact ⟨fun ⟨_, ha, hl⟩ => ⟨ha, hl⟩, fun ⟨ha, hl⟩ => ⟨(), ha, hl⟩⟩

theorem foldlM_cons_ok {f : σ → α → Except ε σ} :
    (a :: l).foldlM f s = .ok t ↔ ∃ m, f s a = .ok m ∧ l.foldlM f m = .ok t := by
  rw [List.foldlM_cons, bind_ok]

theorem foldlM_nil_ok {f : σ → α → Except ε σ} :
    ([] : List α).foldlM f s = .ok t ↔ s = t := by
  simp [pure, Except.pure]

theorem foldlM_ok_induction {f : σ → α → Except ε σ} {P : σ → Prop}
    (hstep : ∀ a ∈ l, ∀ m n, P m → f m a = .ok n → P n) (hs : P s)
    (h : l.foldlM f s = .ok t) : P t := by
  induction l generalizing s with
  | nil =>
    rw [foldlM_nil_ok] at h
    exact h ▸ hs
  | cons a l ih =>
    obtain ⟨m, hm, hrest⟩ := foldlM_cons_ok.mp h
    have hP : P m := hstep a (List.mem_cons_self ..) s m hs hm
    exact ih (fun b hb => hstep b (List.mem_cons_of_mem _ hb)) hP hrest

theorem mapM_eq_ok {g : α → β} (h : ∀ a ∈ l, f a = .ok (g a)) :
    l.mapM f = .ok (l.map g) := by
  induction l with
  | nil => rfl
  | cons a l ih =>
    rw [List.mapM_cons, h a (List.mem_cons_self ..), ih fun b hb => h b (List.mem_cons_of_mem _ hb)]
    rfl

theorem mapM_ok (h : l.mapM f = .ok r) :
    List.Forall₂ (fun a b => f a = .ok b) l r := by
  induction l generalizing r with
  | nil =>
    rw [List.mapM_nil, pure_ok] at h
    exact h ▸ List.Forall₂.nil
  | cons a l ih =>
    rw [List.mapM_cons, bind_ok] at h
    obtain ⟨b, hb, hrest⟩ := h
    obtain ⟨later, hlater, hret⟩ := bind_ok.mp hrest
    rw [← pure_ok.mp hret]
    exact List.Forall₂.cons hb (ih hlater)

theorem mapM_ok_mem (h : l.mapM f = .ok r) :
    ∀ a ∈ l, ∃ b, f a = .ok b := by
  have hsteps := mapM_ok h
  clear h
  induction hsteps with
  | nil => exact fun _ ha => absurd ha List.not_mem_nil
  | cons hfirst _ ih => exact List.forall_mem_cons.mpr ⟨⟨_, hfirst⟩, ih⟩

theorem mapM_ok_mono {f g : α → Except ε β}
    (hstep : ∀ a ∈ l, ∀ b, f a = .ok b → g a = .ok b) (h : l.mapM f = .ok r) : l.mapM g = .ok r := by
  induction l generalizing r with
  | nil => exact h
  | cons a l ih =>
    rw [List.mapM_cons, bind_ok] at h ⊢
    obtain ⟨b, hb, hrest⟩ := h
    obtain ⟨later, hlater, hret⟩ := bind_ok.mp hrest
    refine ⟨b, hstep a (List.mem_cons_self ..) b hb, bind_ok.mpr ⟨later, ?_, hret⟩⟩
    exact ih (fun c hc => hstep c (List.mem_cons_of_mem _ hc)) hlater

theorem foldlM_of_mapM {g : σ → β → Except ε σ}
    (h : l.mapM f = .ok r) : (l.foldlM (fun s a => f a >>= g s) s) = r.foldlM g s := by
  have hsteps := mapM_ok h
  clear h
  induction hsteps generalizing s with
  | nil => rfl
  | @cons a b l r hfirst _ ih =>
    rw [List.foldlM_cons, List.foldlM_cons, hfirst]
    show (g s b >>= fun t => l.foldlM (fun s a => f a >>= g s) t) = g s b >>= fun t => r.foldlM g t
    exact congrArg (g s b >>= ·) (funext fun t => ih)

theorem mapM_congr_map {α' κ : Type} {f' : α' → Except ε β} {key : α → κ}
    {key' : α' → κ} {xs : List α} {ys : List α'} (F : κ → Except ε β)
    (hx : ∀ x ∈ xs, f x = F (key x)) (hy : ∀ y ∈ ys, f' y = F (key' y))
    (h : xs.map key = ys.map key') : xs.mapM f = ys.mapM f' := by
  induction xs generalizing ys with
  | nil =>
    cases ys with
    | nil => rfl
    | cons y ys => cases h
  | cons x xs ih =>
    cases ys with
    | nil => cases h
    | cons y ys =>
      obtain ⟨hfirst, hrest⟩ := List.cons.inj h
      rw [List.mapM_cons, List.mapM_cons, hx x (List.mem_cons_self ..), hy y (List.mem_cons_self ..),
        hfirst, ih (fun a ha => hx a (List.mem_cons_of_mem _ ha))
          (fun b hb => hy b (List.mem_cons_of_mem _ hb)) hrest]

theorem map_of_mapM_ok {κ : Type} (part : β → κ) (key : α → κ)
    (hstep : ∀ a ∈ l, ∀ b, f a = .ok b → part b = key a) (h : l.mapM f = .ok r) :
    r.map part = l.map key := by
  induction l generalizing r with
  | nil =>
    rw [List.mapM_nil, pure_ok] at h
    exact h ▸ rfl
  | cons a l ih =>
    rw [List.mapM_cons, bind_ok] at h
    obtain ⟨b, hb, hrest⟩ := h
    obtain ⟨later, hlater, hret⟩ := bind_ok.mp hrest
    rw [← pure_ok.mp hret, List.map_cons, List.map_cons, hstep a (List.mem_cons_self ..) b hb,
      ih (fun c hc => hstep c (List.mem_cons_of_mem _ hc)) hlater]

variable {Call : Type} {exec : Call → σ → Except ε σ} {cond : Call → σ → Prop} {calls : List Call}

/-- The state after one call: the new state when it returned, the old one when it raised. -/
def settle (s : σ) : Except ε σ → σ
  | .ok t => t
  | .error _ => s

def run (exec : Call → σ → Except ε σ) (s : σ) (calls : List Call) : σ :=
  calls.foldl (fun m c => settle m (exec c m)) s

/-- A run in which no call may raise. -/
def runAll (exec : Call → σ → Except ε σ) (s : σ) (calls : List Call) : Except ε σ :=
  calls.foldlM (fun m c => exec c m) s

theorem runAll_cons {c : Call} {rest : List Call} :
    runAll exec s (c :: rest) = .ok t ↔
      ∃ m, exec c s = .ok m ∧ runAll exec m rest = .ok t := foldlM_cons_ok

/-- Every call of the run meets `cond` in the state it is made in. -/
def Meets (exec : Call → σ → Except ε σ) (cond : Call → σ → Prop) : σ → List Call → Prop
  | _, [] => True
  | s, c :: rest => cond c s ∧ Meets exec cond (settle s (exec c s)) rest

theorem run_cons (exec : Call → σ → Except ε σ) (s : σ) (c : Call) (rest : List Call) :
    run exec s (c :: rest) = run exec (settle s (exec c s)) rest := rfl

theorem settle_invariant {x : Except ε σ} (hs : I s)
    (h : ∀ t, x = .ok t → I t) : I (settle s x) := by
  cases x with
  | ok t => exact h t rfl
  | error e => exact hs

theorem run_invariant_of_meets (hstep : ∀ c s t, I s → cond c s → exec c s = .ok t → I t)
    (hs : I s) (hm : Meets exec cond s calls) :
    I (run exec s calls) := by
  induction calls generalizing s with
  | nil => exact hs
  | cons c rest ih =>
    rw [run_cons]
    exact ih (settle_invariant hs fun t ht => hstep c s t hs hm.1 ht) hm.2

/-- `cond`, asked of a call only when it is accepted: a call that raises writes nothing. -/
def Accepted (exec : Call → σ → Except ε σ) (cond : Call → σ → Prop) (c : Call) (s : σ) : Prop :=
  (∃ t, exec c s = .ok t) → cond c s

theorem run_invariant_of_accepted (hstep : ∀ c s t, I s → cond c s → exec c s = .ok t → I t)
    (hs : I s) (hm : Meets exec (Accepted exec cond) s calls) :
    I (run exec s calls) :=
  run_invariant_of_meets (fun c m t hI hcond hexec => hstep c m t hI (hcond ⟨t, hexec⟩) hexec) hs hm

theorem Meets.mono {cond cond' : Call → σ → Prop}
    (h : Meets exec cond s calls) (himp : ∀ c s, cond c s → cond' c s) :
    Meets exec cond' s calls := by
  induction calls generalizing s with
  | nil => trivial
  | cons c rest ih => exact ⟨himp c s h.1, ih h.2⟩

theorem Meets.mem (h : Meets exec cond s calls) :
    Meets exec (fun c s => c ∈ calls ∧ cond c s) s calls := by
  have hsuffix : ∀ (rest : List Call) (s : σ), (∀ c ∈ rest, c ∈ calls) → Meets exec cond s rest →
      Meets exec (fun c s => c ∈ calls ∧ cond c s) s rest := by
    intro rest
    induction rest with
    | nil => exact fun _ _ _ => trivial
    | cons c rest ih =>
      intro s hmem hmeets
      exact ⟨⟨hmem c (List.mem_cons_self ..), hmeets.1⟩,
        ih _ (fun d hd => hmem d (List.mem_cons_of_mem _ hd)) hmeets.2⟩
  exact hsuffix calls s (fun _ hc => hc) h

theorem run_invariant
    (hstep : ∀ c s t, I s → exec c s = .ok t → I t) (calls : List Call) (hs : I s) :
    I (run exec s calls) := by
  induction calls generalizing s with
  | nil => exact hs
  | cons c rest ih =>
    rw [run_cons]
    exact ih (settle_invariant hs fun t ht => hstep c s t hs ht)

end Outcome
