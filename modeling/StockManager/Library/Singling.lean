import Mathlib.Data.List.Basic
import Mathlib.Tactic.Common

/-! # Singling an element out

A tier is a predicate. It decides only when exactly one element meets it, and the first tier
that decides wins. -/

namespace Singling

variable {α β : Type}
variable {l l' : List α} {a : α} {tiers : List (α → Bool)}

/-- The element of a list that holds one. -/
def sole : List α → Option α
  | [a] => some a
  | _ => none

def firstSole : List (α → Bool) → List α → Option α
  | [], _ => none
  | tier :: tiers, l => (sole (l.filter tier)).or (firstSole tiers l)

def choose (tiers : List (α → Bool)) (l : List α) : Option (Option α) :=
  if l.length ≤ 1 then some l.head? else (firstSole tiers l).map some

/-- `a` is what the first deciding tier meets. -/
def SingledOut (tiers : List (α → Bool)) (l : List α) (a : α) : Prop :=
  ∃ before tier after, tiers = before ++ tier :: after ∧ l.filter tier = [a] ∧
    ∀ weaker ∈ before, sole (l.filter weaker) = none

theorem sole_eq_some : sole l = some a ↔ l = [a] := by
  match l with
  | [] => simp [sole]
  | [b] => simp [sole]
  | _ :: _ :: _ => simp [sole]

theorem sole_map (f : α → β) (l : List α) : sole (l.map f) = (sole l).map f := by
  match l with
  | [] => rfl
  | [_] => rfl
  | _ :: _ :: _ => rfl

theorem sole_perm (h : l.Perm l') : sole l = sole l' := by
  induction h with
  | nil => rfl
  | cons a h ih =>
    rename_i s t
    match s, t, h with
    | [], t, h => rw [List.nil_perm.mp h]
    | s, [], h => rw [List.perm_nil.mp h]
    | _ :: _, _ :: _, _ => rfl
  | swap a b l => rfl
  | trans _ _ ih ih' => exact ih.trans ih'

theorem firstSole_map (f : α → β) (tiers : List (β → Bool)) (l : List α) :
    firstSole tiers (l.map f) = (firstSole (tiers.map (· ∘ f)) l).map f := by
  induction tiers with
  | nil => rfl
  | cons tier tiers ih =>
    have hsole : sole ((l.map f).filter tier) = (sole (l.filter (tier ∘ f))).map f := by
      rw [List.filter_map, sole_map]
    show (sole ((l.map f).filter tier)).or (firstSole tiers (l.map f)) =
      ((sole (l.filter (tier ∘ f))).or (firstSole (tiers.map (· ∘ f)) l)).map f
    rw [hsole, ih, Option.map_or]

theorem firstSole_perm (tiers : List (α → Bool)) (h : l.Perm l') :
    firstSole tiers l = firstSole tiers l' := by
  induction tiers with
  | nil => rfl
  | cons tier tiers ih =>
    show (sole (l.filter tier)).or _ = (sole (l'.filter tier)).or _
    rw [sole_perm (h.filter tier), ih]

theorem firstSole_eq_some :
    firstSole tiers l = some a ↔ SingledOut tiers l a := by
  induction tiers with
  | nil => simp [firstSole, SingledOut]
  | cons tier tiers ih =>
    cases hsole : sole (l.filter tier) with
    | some b =>
      have hfirst : firstSole (tier :: tiers) l = some b := by simp [firstSole, hsole]
      rw [hfirst]
      constructor
      · intro h
        cases h
        exact ⟨[], tier, tiers, rfl, sole_eq_some.mp hsole, by simp⟩
      · rintro ⟨before, decider, after, htiers, hdecider, hbefore⟩
        cases before with
        | nil =>
          obtain ⟨rfl, rfl⟩ := List.cons.inj htiers
          rw [sole_eq_some.mpr hdecider] at hsole
          exact hsole.symm
        | cons weaker before =>
          obtain ⟨rfl, -⟩ := List.cons.inj htiers
          rw [hbefore tier (by simp)] at hsole
          cases hsole
    | none =>
      have hfirst : firstSole (tier :: tiers) l = firstSole tiers l := by simp [firstSole, hsole]
      rw [hfirst, ih]
      constructor
      · rintro ⟨before, decider, after, rfl, hdecider, hbefore⟩
        refine ⟨tier :: before, decider, after, rfl, hdecider, fun weaker hmem => ?_⟩
        rcases List.mem_cons.mp hmem with rfl | hmem
        · exact hsole
        · exact hbefore weaker hmem
      · rintro ⟨before, decider, after, htiers, hdecider, hbefore⟩
        cases before with
        | nil =>
          obtain ⟨rfl, -⟩ := List.cons.inj htiers
          rw [sole_eq_some.mpr hdecider] at hsole
          cases hsole
        | cons weaker before =>
          obtain ⟨rfl, rfl⟩ := List.cons.inj htiers
          exact ⟨before, decider, after, rfl, hdecider, fun w hw => hbefore w (by simp [hw])⟩

theorem filter_eq_singleton {tier : α → Bool} (hnodup : l.Nodup)
    (ha : a ∈ l) (hmeets : tier a = true) (honly : ∀ b ∈ l, tier b = true → b = a) :
    l.filter tier = [a] := by
  have hmem : ∀ b ∈ l.filter tier, b = a := fun b hb =>
    honly b (List.mem_filter.mp hb).1 (List.mem_filter.mp hb).2
  have hsub : (l.filter tier).Nodup := hnodup.filter tier
  match hfilter : l.filter tier with
  | [] => exact absurd (List.mem_filter.mpr ⟨ha, hmeets⟩) (by simp [hfilter])
  | [b] => rw [hmem b (by simp [hfilter])]
  | b :: c :: rest =>
    have hb := hmem b (by simp [hfilter])
    have hc := hmem c (by simp [hfilter])
    rw [hfilter, hb, hc] at hsub
    simp at hsub

theorem head?_perm (h : l.Perm l') (hlength : l.length ≤ 1) :
    l.head? = l'.head? := by
  match l, h with
  | [], h => rw [List.nil_perm.mp h]
  | [a], h => rw [List.singleton_perm.mp h]
  | _ :: _ :: _, _ => simp at hlength

theorem choose_perm (tiers : List (α → Bool)) (h : l.Perm l') :
    choose tiers l = choose tiers l' := by
  by_cases hlength : l.length ≤ 1
  · simp only [choose, hlength, h.length_eq ▸ hlength, if_true, head?_perm h hlength]
  · simp only [choose, hlength, h.length_eq ▸ hlength, if_false, firstSole_perm tiers h]

theorem choose_map (f : α → β) (tiers : List (β → Bool)) (l : List α) :
    choose tiers (l.map f) = (choose (tiers.map (· ∘ f)) l).map (Option.map f) := by
  by_cases hlength : l.length ≤ 1
  · simp [choose, hlength]
  · simp [choose, hlength, firstSole_map, Function.comp_def]

theorem choose_eq_some {kept : Option α} (h : choose tiers l = some kept) :
    (l = [] ∧ kept = none) ∨ ∃ a, kept = some a ∧ (l = [a] ∨ SingledOut tiers l a) := by
  unfold choose at h
  split at h
  · match l with
    | [] => cases h; exact .inl ⟨rfl, rfl⟩
    | [a] => cases h; exact .inr ⟨a, rfl, .inl rfl⟩
    | _ :: _ :: _ => simp at *
  · obtain ⟨a, ha, rfl⟩ := Option.map_eq_some_iff.mp h
    exact .inr ⟨a, rfl, .inr (firstSole_eq_some.mp ha)⟩

theorem choose_mem (h : choose tiers l = some (some a)) : a ∈ l := by
  rcases choose_eq_some h with ⟨-, hnone⟩ | ⟨b, hb, hl⟩
  · cases hnone
  · cases hb
    rcases hl with rfl | ⟨before, tier, after, -, hdecider, -⟩
    · exact List.mem_singleton_self a
    · exact (List.mem_filter.mp (hdecider ▸ List.mem_singleton_self a)).1

theorem choose_none (h : choose tiers l = some none) :
    l = [] := by
  rcases choose_eq_some h with ⟨hl, -⟩ | ⟨b, hb, -⟩
  · exact hl
  · cases hb

theorem choose_of_singled (h : SingledOut tiers l a) : choose tiers l = some (some a) := by
  obtain ⟨before, tier, after, htiers, hdecider, hbefore⟩ := id h
  by_cases hlength : l.length ≤ 1
  · have hmem : a ∈ l := (List.mem_filter.mp (hdecider ▸ List.mem_singleton_self a)).1
    match l with
    | [b] =>
      rw [List.mem_singleton.mp hmem]
      rfl
    | _ :: _ :: _ => simp at hlength
  · simp [choose, hlength, firstSole_eq_some.mpr h]

end Singling
