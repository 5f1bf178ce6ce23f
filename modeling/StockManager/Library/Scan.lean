import Mathlib

/-! # Scanning a text for the leftmost matches of a pattern, as `re.split` and `re.sub` do -/

namespace Scan

variable {before : Option Char} {text piece sep : List Char} {pieces : List (List Char)} {c : Char}

/-- The length of a match at a place, from the character before it and the text from there on -/
abbrev Pattern : Type := Option Char → List Char → Option ℕ

/-- A character at the head of the first piece -/
def consFirst (c : Char) : List (List Char) → List (List Char)
  | [] => [[c]]
  | piece :: pieces => (c :: piece) :: pieces

/-- The pieces between the matches; `skip` characters of a match are left. -/
def splitFrom (here : Pattern) : ℕ → Option Char → List Char → List (List Char)
  | _, _, [] => [[]]
  | skip + 1, _, c :: rest => splitFrom here skip (some c) rest
  | 0, before, c :: rest =>
    match here before (c :: rest) with
    | some (n + 1) => [] :: splitFrom here n (some c) rest
    | _ => consFirst c (splitFrom here 0 (some c) rest)

/-- `re.split` -/
def split (here : Pattern) (text : List Char) : List (List Char) := splitFrom here 0 none text

/-- `re.sub` -/
def substitute (here : Pattern) (replacement text : List Char) : List Char :=
  replacement.intercalate (split here text)

variable {here : Pattern}

def Quiet (here : Pattern) (front tail : List Char) : Prop :=
  ∀ before rest, rest ≠ [] → rest <:+ front → (here before (rest ++ tail)).getD 0 = 0

theorem splitFrom_step {rest : List Char} (h : (here before (c :: rest)).getD 0 = 0) :
    splitFrom here 0 before (c :: rest) = consFirst c (splitFrom here 0 (some c) rest) := by
  rw [splitFrom]
  split
  next n heq =>
    rw [heq] at h
    simp at h
  next => rfl

theorem splitFrom_match {n : ℕ} {rest : List Char} (h : here before (c :: rest) = some (n + 1)) :
    splitFrom here 0 before (c :: rest) = [] :: splitFrom here n (some c) rest := by
  rw [splitFrom, h]

def appendFirst (front : List Char) : List (List Char) → List (List Char)
  | [] => [front]
  | piece :: pieces => (front ++ piece) :: pieces

theorem consFirst_appendFirst (c : Char) (front : List Char) (pieces : List (List Char)) :
    consFirst c (appendFirst front pieces) = appendFirst (c :: front) pieces := by
  cases pieces <;> rfl

theorem splitFrom_ne_nil (skip : ℕ) (before : Option Char) (text : List Char) :
    splitFrom here skip before text ≠ [] := by
  induction text generalizing skip before with
  | nil => simp [splitFrom]
  | cons c rest ih =>
    cases skip with
    | succ skip => exact ih skip (some c)
    | zero =>
      rw [splitFrom]
      split
      · simp
      · intro h
        cases hrest : splitFrom here 0 (some c) rest with
        | nil => exact ih 0 (some c) hrest
        | cons piece pieces => simp [hrest, consFirst] at h

theorem appendFirst_nil (h : pieces ≠ []) : appendFirst [] pieces = pieces := by
  cases pieces with
  | nil => exact absurd rfl h
  | cons piece pieces => rfl

theorem getLast?_cons_or (c : Char) (l : List Char) (before : Option Char) :
    (c :: l).getLast?.or before = l.getLast?.or (some c) := by
  cases h : l.getLast? <;> simp [List.getLast?_cons, h]

theorem splitFrom_quiet {front tail : List Char} (h : Quiet here front tail) (before : Option Char) :
    splitFrom here 0 before (front ++ tail) =
      appendFirst front (splitFrom here 0 (front.getLast?.or before) tail) := by
  induction front generalizing before with
  | nil => exact (appendFirst_nil (splitFrom_ne_nil _ _ _)).symm
  | cons c front ih =>
    have hquiet : Quiet here front tail := fun b rest hne hrest =>
      h b rest hne (hrest.trans (List.suffix_cons c front))
    have hstep : (here before (c :: (front ++ tail))).getD 0 = 0 :=
      h before (c :: front) (List.cons_ne_nil c front) List.suffix_rfl
    rw [getLast?_cons_or, List.cons_append, splitFrom_step hstep, ih hquiet, consFirst_appendFirst]

theorem split_quiet (h : Quiet here text []) : split here text = [text] := by
  have hsplit := splitFrom_quiet h none
  rw [List.append_nil] at hsplit
  simp [split, hsplit, splitFrom, appendFirst]

theorem splitFrom_skip (skipped rest : List Char) (before : Option Char) :
    splitFrom here skipped.length before (skipped ++ rest) =
      splitFrom here 0 (skipped.getLast?.or before) rest := by
  induction skipped generalizing before with
  | nil => rfl
  | cons c skipped ih =>
    rw [getLast?_cons_or, List.length_cons, List.cons_append, splitFrom, ih]

theorem splitFrom_separator {front separator rest : List Char}
    (hne : separator ≠ []) (hquiet : Quiet here front (separator ++ rest))
    (h : here (front.getLast?.or before) (separator ++ rest) = some separator.length) :
    splitFrom here 0 before (front ++ (separator ++ rest)) =
      front :: splitFrom here 0 separator.getLast? rest := by
  rw [splitFrom_quiet hquiet]
  cases separator with
  | nil => exact absurd rfl hne
  | cons c separator =>
    have hlast := getLast?_cons_or c separator none
    rw [Option.or_none] at hlast
    have hmatch : here (front.getLast?.or before) (c :: (separator ++ rest)) = some (separator.length + 1) := h
    rw [List.cons_append, splitFrom_match hmatch, splitFrom_skip, ← hlast, appendFirst, List.append_nil]

theorem substitute_quiet (replacement : List Char) (h : Quiet here text []) :
    substitute here replacement text = text := by
  simp [substitute, split_quiet h]

theorem intercalate_cons (h : pieces ≠ []) :
    sep.intercalate (piece :: pieces) = piece ++ (sep ++ sep.intercalate pieces) := by
  cases pieces with
  | nil => exact absurd rfl h
  | cons next pieces => simp [List.intercalate, List.intersperse]

theorem intercalate_singleton (sep piece : List Char) : sep.intercalate [piece] = piece := by
  simp [List.intercalate]

theorem intercalate_consFirst (h : pieces ≠ []) :
    sep.intercalate (consFirst c pieces) = c :: sep.intercalate pieces := by
  cases pieces with
  | nil => exact absurd rfl h
  | cons piece pieces => cases pieces <;> simp [consFirst]

theorem intercalate_append {a b : List (List Char)} (ha : a ≠ []) (hb : b ≠ []) :
    sep.intercalate (a ++ b) = sep.intercalate a ++ (sep ++ sep.intercalate b) := by
  induction a with
  | nil => exact absurd rfl ha
  | cons piece a ih =>
    by_cases hlast : a = []
    · rw [hlast, List.singleton_append, intercalate_cons hb, intercalate_singleton]
    · rw [List.cons_append, intercalate_cons (by simp [hlast]), ih hlast, intercalate_cons hlast, List.append_assoc,
        List.append_assoc]

def Extends (here : Pattern) : Prop :=
  ∀ before before' text tail, (here before text).getD 0 ≠ 0 → (here before' (text ++ tail)).getD 0 ≠ 0

theorem first_isPrefix (h : splitFrom here 0 before text = piece :: pieces) : piece <+: text := by
  induction text generalizing piece pieces before with
  | nil =>
    rw [splitFrom] at h
    exact (List.cons.inj h).1 ▸ List.nil_prefix
  | cons c rest ih =>
    rw [splitFrom] at h
    split at h
    next => exact (List.cons.inj h).1 ▸ List.nil_prefix
    next =>
      cases hrest : splitFrom here 0 (some c) rest with
      | nil => exact absurd hrest (splitFrom_ne_nil _ _ _)
      | cons next others =>
        rw [hrest, consFirst] at h
        rw [← (List.cons.inj h).1, List.cons_prefix_cons]
        exact ⟨rfl, ih hrest⟩

theorem infix_of_mem_splitFrom {skip : ℕ}
    (h : piece ∈ splitFrom here skip before text) : piece <:+: text := by
  induction text generalizing skip before with
  | nil =>
    rw [splitFrom, List.mem_singleton] at h
    exact h ▸ List.nil_infix
  | cons c rest ih =>
    cases skip with
    | succ skip => exact List.infix_cons (ih h)
    | zero =>
      cases hpieces : splitFrom here 0 before (c :: rest) with
      | nil => exact absurd hpieces (splitFrom_ne_nil _ _ _)
      | cons first others =>
        have hfirst := first_isPrefix hpieces
        rw [hpieces] at h
        rcases List.mem_cons.mp h with rfl | hmem
        · exact hfirst.isInfix
        · rw [splitFrom] at hpieces
          split at hpieces
          next n _ =>
            rw [← (List.cons.inj hpieces).2] at hmem
            exact List.infix_cons (ih hmem)
          next =>
            cases hrest : splitFrom here 0 (some c) rest with
            | nil => exact absurd hrest (splitFrom_ne_nil _ _ _)
            | cons next later =>
              rw [hrest, consFirst] at hpieces
              rw [← (List.cons.inj hpieces).2] at hmem
              exact List.infix_cons (ih (hrest ▸ List.mem_cons_of_mem next hmem))

theorem quiet_of_mem_splitFrom (hextends : Extends here) {skip : ℕ}
    (h : piece ∈ splitFrom here skip before text) : Quiet here piece [] := by
  induction text generalizing skip before piece with
  | nil =>
    rw [splitFrom, List.mem_singleton] at h
    rintro b rest hne hrest
    rw [h] at hrest
    exact absurd (List.suffix_nil.mp hrest) hne
  | cons c rest ih =>
    cases skip with
    | succ skip => exact ih h
    | zero =>
      rw [splitFrom] at h
      split at h
      next n heq =>
        rcases List.mem_cons.mp h with rfl | hmem
        · rintro b s hne hs
          exact absurd (List.suffix_nil.mp hs) hne
        · exact ih hmem
      next hnone =>
        have hstep : (here before (c :: rest)).getD 0 = 0 := by
          cases hm : here before (c :: rest) with
          | none => rfl
          | some n =>
            cases n with
            | zero => rfl
            | succ n => exact absurd hm (hnone n)
        cases hpieces : splitFrom here 0 (some c) rest with
        | nil => exact absurd hpieces (splitFrom_ne_nil _ _ _)
        | cons first others =>
          have hquiet {p : List Char} (hp : p ∈ first :: others) : Quiet here p [] := ih (hpieces ▸ hp)
          rw [hpieces, consFirst] at h
          rcases List.mem_cons.mp h with rfl | hmem
          · rintro b s hne hs
            rcases List.suffix_cons_iff.mp hs with rfl | hsuffix
            · obtain ⟨tail, htail⟩ := first_isPrefix hpieces
              by_contra hmatch
              rw [List.append_nil] at hmatch
              have hext := hextends b before (c :: first) tail hmatch
              rw [List.cons_append, htail] at hext
              exact hext hstep
            · exact hquiet List.mem_cons_self b s hne hsuffix
          · exact hquiet (List.mem_cons_of_mem _ hmem)

theorem Quiet.of_infix (hextends : Extends here) {front text tail : List Char}
    (h : Quiet here (front ++ (text ++ tail)) []) : Quiet here text [] := by
  rintro before rest hne ⟨start, hstart⟩
  by_contra hmatch
  rw [List.append_nil] at hmatch
  have hext := hextends before before rest tail hmatch
  have hquiet := h before (rest ++ tail) (by simp [hne]) ⟨front ++ start, by
    rw [← hstart]
    simp⟩
  rw [List.append_nil] at hquiet
  exact hext hquiet

end Scan
