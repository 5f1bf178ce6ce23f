import StockManager.Library.Outcome

/-! # Runs seen through a projection

A projection of states carries one computation over into another when both take the same way;
then so do their compositions. -/

namespace Outcome

variable {ε α β γ δ σ τ : Type}

theorem check_congr {p q : Prop} [Decidable p] [Decidable q] (h : p ↔ q) (e : ε) :
    check p e = check q e := if_congr h rfl rfl

theorem map_bind {x : Except ε α} {f : α → Except ε β} {f' : γ → Except ε δ} {part : α → γ}
    {whole : β → δ} (h : ∀ a, x = .ok a → (f a).map whole = f' (part a)) :
    (x >>= f).map whole = x.map part >>= f' := by
  cases x with
  | error e => rfl
  | ok a => exact h a rfl

theorem map_bind_shared {x : Except ε α} {f : α → Except ε β} {f' : α → Except ε δ}
    {whole : β → δ} (h : ∀ a, x = .ok a → (f a).map whole = f' a) :
    (x >>= f).map whole = x >>= f' := by
  cases x with
  | error e => rfl
  | ok a => exact h a rfl

theorem map_foldlM {f : σ → α → Except ε σ} {f' : τ → α → Except ε τ} {view : σ → τ}
    (h : ∀ s a, (f s a).map view = f' (view s) a) (l : List α) (s : σ) :
    (l.foldlM f s).map view = l.foldlM f' (view s) := by
  induction l generalizing s with
  | nil => rfl
  | cons a rest ih =>
    rw [List.foldlM_cons, List.foldlM_cons, ← h s a]
    exact map_bind fun t _ => ih t

theorem exists_ok_of_map_eq {x : Except ε α} {y : Except ε β} {f : α → γ} {g : β → γ}
    (h : x.map f = y.map g) : (∃ a, x = .ok a) ↔ ∃ b, y = .ok b := by
  cases x with
  | error e =>
    cases y with
    | error e' => exact ⟨fun ⟨_, ha⟩ => (by cases ha), fun ⟨_, hb⟩ => (by cases hb)⟩
    | ok b => cases h
  | ok a =>
    cases y with
    | error e' => cases h
    | ok b => exact ⟨fun _ => ⟨b, rfl⟩, fun _ => ⟨a, rfl⟩⟩

theorem map_eq_ok {x : Except ε α} {y : Except ε β} {f : α → γ} {g : β → γ} {a : α} {b : β}
    (h : x.map f = y.map g) (hx : x = .ok a) (hy : y = .ok b) : f a = g b := by
  rw [hx, hy] at h
  exact Except.ok.inj h

end Outcome
