import Mathlib.Tactic.Common

/-! # Machines that take one action after another

`step a s` is `none` when the action `a` cannot happen in the state `s`. A run
is a list of actions, each of which happens. -/

namespace Machine

variable {σ Act : Type} (step : Act → σ → Option σ)

def run : σ → List Act → Option σ
  | s, [] => some s
  | s, a :: rest => (step a s).bind fun t => run t rest

/-- Every action of the run meets `cond` in the state it happens in. -/
def Meets (cond : Act → σ → Prop) : σ → List Act → Prop
  | _, [] => True
  | s, a :: rest => cond a s ∧ ∀ t, step a s = some t → Meets cond t rest

instance (cond : Act → σ → Prop) [∀ a s, Decidable (cond a s)] :
    (s : σ) → (acts : List Act) → Decidable (Meets step cond s acts)
  | _, [] => .isTrue trivial
  | s, a :: rest =>
    have : DecidablePred fun t => Meets step cond t rest := fun t => instDecidableMeets cond t rest
    inferInstanceAs (Decidable (cond a s ∧ ∀ t ∈ step a s, Meets step cond t rest))

variable {step}

theorem run_cons {s u : σ} {a : Act} {rest : List Act} :
    run step s (a :: rest) = some u ↔ ∃ t, step a s = some t ∧ run step t rest = some u := by
  rw [run, Option.bind_eq_some_iff]

theorem meets_of_forall {cond : Act → σ → Prop} (h : ∀ a s, cond a s) (s : σ) (acts : List Act) :
    Meets step cond s acts := by
  induction acts generalizing s with
  | nil => trivial
  | cons a rest ih => exact ⟨h a s, fun t _ => ih t⟩

theorem run_append {s u : σ} {xs ys : List Act} :
    run step s (xs ++ ys) = some u ↔ ∃ t, run step s xs = some t ∧ run step t ys = some u := by
  induction xs generalizing s with
  | nil => simp [run]
  | cons a xs ih =>
    rw [List.cons_append, run_cons]
    constructor
    · rintro ⟨m, hm, hrest⟩
      obtain ⟨t, hxs, hys⟩ := ih.mp hrest
      exact ⟨t, run_cons.mpr ⟨m, hm, hxs⟩, hys⟩
    · rintro ⟨t, hxs, hys⟩
      obtain ⟨m, hm, hrest⟩ := run_cons.mp hxs
      exact ⟨m, hm, ih.mpr ⟨t, hrest, hys⟩⟩

theorem run_invariant_of_meets {cond : Act → σ → Prop} {I : σ → Prop}
    (hstep : ∀ a s t, I s → cond a s → step a s = some t → I t) {s t : σ} {acts : List Act}
    (hs : I s) (hm : Meets step cond s acts) (h : run step s acts = some t) : I t := by
  induction acts generalizing s with
  | nil =>
    have heq : s = t := by simpa [run] using h
    exact heq ▸ hs
  | cons a rest ih =>
    obtain ⟨m, hfirst, hrest⟩ := run_cons.mp h
    exact ih (hstep a s m hs hm.1 hfirst) (hm.2 m hfirst) hrest

theorem Meets.append {cond : Act → σ → Prop} {s t : σ} {xs ys : List Act}
    (h : Meets step cond s (xs ++ ys)) (hrun : run step s xs = some t) :
    Meets step cond s xs ∧ Meets step cond t ys := by
  induction xs generalizing s with
  | nil =>
    have heq : s = t := by simpa [run] using hrun
    exact ⟨trivial, heq ▸ h⟩
  | cons a xs ih =>
    obtain ⟨m, hfirst, hrest⟩ := run_cons.mp hrun
    refine ⟨⟨h.1, fun u hu => ?_⟩, (ih (h.2 m hfirst) hrest).2⟩
    obtain rfl := Option.some.inj (hfirst.symm.trans hu)
    exact (ih (h.2 m hfirst) hrest).1

end Machine
