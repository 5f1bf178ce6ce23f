import Mathlib.Data.List.Basic
import Mathlib.Tactic.Common

/-! # Texts without control characters, and texts of lines

A program of lines is cut at CR, LF and CR LF; what was put in as a line comes back as
one where it holds neither. -/

namespace PlainText

variable {text a b : List Char} {c : Char}

def Plain (text : List Char) : Prop := ∀ c ∈ text, 32 ≤ c.toNat

theorem plain_nil : Plain [] := fun _ h => absurd h List.not_mem_nil

theorem Plain.append (ha : Plain a) (hb : Plain b) : Plain (a ++ b) := by
  intro c hc
  rcases List.mem_append.mp hc with hc | hc
  · exact ha c hc
  · exact hb c hc

theorem Plain.cons (hc : 32 ≤ c.toNat) (ha : Plain a) : Plain (c :: a) := by
  intro d hd
  rcases List.mem_cons.mp hd with rfl | hd
  · exact hc
  · exact ha d hd

theorem Plain.of_subset (hb : Plain b) (h : a ⊆ b) : Plain a :=
  fun c hc => hb c (h hc)

theorem plain_of_all (h : (text.all fun c => 32 ≤ c.toNat) = true) : Plain text :=
  fun c hc => of_decide_eq_true (List.all_eq_true.mp h c hc)

theorem Plain.newline (h : Plain text) : '\n' ∉ text :=
  fun hmem => absurd (h _ hmem) (by decide)

theorem Plain.tab (h : Plain text) : '\t' ∉ text :=
  fun hmem => absurd (h _ hmem) (by decide)

theorem plain_replicate (n : ℕ) (hc : 32 ≤ c.toNat) : Plain (List.replicate n c) := by
  intro d hd
  rw [List.eq_of_mem_replicate hd]
  exact hc

theorem plain_digitChar (n : ℕ) : 32 ≤ (Nat.digitChar n).toNat := by
  rcases Nat.lt_or_ge n 16 with hn | hn
  · have hall : ∀ m < 16, 32 ≤ (Nat.digitChar m).toNat := by decide
    exact hall n hn
  · have hstar : Nat.digitChar n = '*' := by
      unfold Nat.digitChar
      simp (disch := omega) only [if_neg]
    rw [hstar]
    decide

theorem plain_toDigits (base n : ℕ) : Plain (Nat.toDigits base n) := by
  have hcore : ∀ (fuel n : ℕ) (later : List Char), Plain later →
      Plain (Nat.toDigitsCore base fuel n later) := by
    intro fuel
    induction fuel with
    | zero => exact fun _ _ h => h
    | succ fuel ih =>
      intro n later hlater
      have hmore : Plain (Nat.digitChar (n % base) :: later) :=
        Plain.cons (plain_digitChar _) hlater
      rw [Nat.toDigitsCore]
      split
      · exact hmore
      · exact ih _ _ hmore
  exact hcore _ _ _ plain_nil

def OneLine (text : List Char) : Prop := '\r' ∉ text ∧ '\n' ∉ text

theorem Plain.oneLine (h : Plain text) : OneLine text :=
  ⟨fun hmem => absurd (h _ hmem) (by decide), h.newline⟩

theorem OneLine.append (ha : OneLine a) (hb : OneLine b) : OneLine (a ++ b) := by
  simp only [OneLine, List.mem_append, not_or] at ha hb ⊢
  exact ⟨⟨ha.1, hb.1⟩, ha.2, hb.2⟩

/-- The pieces between line ends. -/
def splitLines : List Char → List (List Char)
  | [] => [[]]
  | '\r' :: '\n' :: rest => [] :: splitLines rest
  | c :: rest =>
    if c = '\r' ∨ c = '\n' then [] :: splitLines rest
    else match splitLines rest with
      | [] => [[c]]
      | first :: later => (c :: first) :: later

/-- Lines, each with its line end. -/
def unlines (lines : List (List Char)) : List Char := lines.flatMap fun line => line ++ ['\r', '\n']

theorem splitLines_ne_nil (text : List Char) : splitLines text ≠ [] := by
  fun_cases splitLines text <;> simp_all

theorem splitLines_crlf (text rest : List Char) :
    splitLines (text ++ '\r' :: '\n' :: rest) = splitLines text ++ splitLines rest := by
  -- a carriage return at the text's end is a line end of its own
  have hother : ∀ (c : Char) (later : List Char),
      (∀ more, c = '\r' → later = '\n' :: more → False) →
      ∀ more, c = '\r' → later ++ '\r' :: '\n' :: rest = '\n' :: more → False := by
    intro c later h more hc heq
    cases later with
    | nil => exact absurd (List.cons.inj heq).1 (by decide)
    | cons d later => exact h later hc (by rw [(List.cons.inj heq).1])
  induction text using splitLines.induct with
  | case1 => rfl
  | case2 later ih => rw [List.cons_append, List.cons_append, splitLines, splitLines, ih]; rfl
  | case3 c later h hc ih =>
    rw [List.cons_append, splitLines.eq_3 _ _ (hother c later h), splitLines.eq_3 _ _ h,
      if_pos hc, if_pos hc, ih]
    rfl
  | case4 c later h hc hnone ih => exact absurd hnone (splitLines_ne_nil later)
  | case5 c later h hc first more hsplit ih =>
    rw [List.cons_append, splitLines.eq_3 _ _ (hother c later h), splitLines.eq_3 _ _ h,
      if_neg hc, if_neg hc, ih, hsplit]
    rfl

theorem splitLines_oneLine (h : OneLine text) : splitLines text = [text] := by
  induction text with
  | nil => rfl
  | cons c text ih =>
    simp only [OneLine, List.mem_cons, not_or] at h
    obtain ⟨⟨hcr, hcrs⟩, hlf, hlfs⟩ := h
    have hc : ¬ (c = '\r' ∨ c = '\n') := fun hc => hc.elim (fun h => hcr h.symm) fun h => hlf h.symm
    rw [splitLines.eq_3 c text fun _ h => absurd h.symm hcr, if_neg hc, ih ⟨hcrs, hlfs⟩]

theorem oneLine_of_splitLines (h : (splitLines text).length ≤ 1) : OneLine text := by
  have hpos : ∀ t, 0 < (splitLines t).length := fun t => List.length_pos_of_ne_nil (splitLines_ne_nil t)
  induction text using splitLines.induct with
  | case1 => exact ⟨List.not_mem_nil, List.not_mem_nil⟩
  | case2 later ih =>
    rw [splitLines, List.length_cons] at h
    have := hpos later
    omega
  | case3 c later hc hbreak ih =>
    rw [splitLines.eq_3 c later hc, if_pos hbreak, List.length_cons] at h
    have := hpos later
    omega
  | case4 c later hc hbreak hnone ih => exact absurd hnone (splitLines_ne_nil later)
  | case5 c later hc hbreak first more hsplit ih =>
    rw [splitLines.eq_3 c later hc, if_neg hbreak, hsplit] at h
    obtain ⟨hcr, hlf⟩ := ih (by rw [hsplit]; exact h)
    rw [not_or] at hbreak
    exact ⟨fun hmem => (List.mem_cons.mp hmem).elim (fun h => hbreak.1 h.symm) hcr,
      fun hmem => (List.mem_cons.mp hmem).elim (fun h => hbreak.2 h.symm) hlf⟩

theorem splitLines_unlines (lines : List (List Char)) :
    splitLines (unlines lines) = lines.flatMap splitLines ++ [[]] := by
  induction lines with
  | nil => rfl
  | cons line lines ih =>
    have hstep : unlines (line :: lines) = line ++ '\r' :: '\n' :: unlines lines := by
      simp [unlines]
    rw [hstep, splitLines_crlf, ih, List.flatMap_cons, List.append_assoc]

theorem flatMap_splitLines {lines : List (List Char)} (h : ∀ line ∈ lines, OneLine line) :
    lines.flatMap splitLines = lines := by
  induction lines with
  | nil => rfl
  | cons line lines ih =>
    rw [List.flatMap_cons, splitLines_oneLine (h line (List.mem_cons_self ..)),
      ih fun l hl => h l (List.mem_cons_of_mem _ hl)]
    rfl

theorem oneLine_of_flatMap {lines : List (List Char)}
    (h : (lines.flatMap splitLines).length ≤ lines.length) : ∀ line ∈ lines, OneLine line := by
  have hle : ∀ lines : List (List Char), lines.length ≤ (lines.flatMap splitLines).length := by
    intro lines
    induction lines with
    | nil => exact Nat.le_refl _
    | cons line lines ih =>
      have hpos := List.length_pos_of_ne_nil (splitLines_ne_nil line)
      rw [List.flatMap_cons, List.length_append, List.length_cons]
      omega
  induction lines with
  | nil => exact fun line hline => absurd hline List.not_mem_nil
  | cons line lines ih =>
    have hpos := List.length_pos_of_ne_nil (splitLines_ne_nil line)
    have hrest := hle lines
    rw [List.flatMap_cons, List.length_append, List.length_cons] at h
    refine List.forall_mem_cons.mpr ⟨oneLine_of_splitLines (by omega), ih (by omega)⟩

/-- The text up to the last sign `c` and with it. -/
def upToLast (c : Char) (text : List Char) : List Char := (text.reverse.dropWhile (· ≠ c)).reverse

theorem upToLast_append (h : c ∉ b) :
    upToLast c (a ++ c :: b) = a ++ [c] := by
  have hdrop : ∀ later : List Char, c ∉ later →
      (later ++ c :: a.reverse).dropWhile (fun d => decide (d ≠ c)) = c :: a.reverse := by
    intro later
    induction later with
    | nil => simp
    | cons d later ih =>
      intro hmem
      rw [List.mem_cons, not_or] at hmem
      rw [List.cons_append, List.dropWhile_cons_of_pos (by simpa using Ne.symm hmem.1), ih hmem.2]
  have hreverse : (a ++ c :: b).reverse = b.reverse ++ c :: a.reverse := by simp
  rw [upToLast, hreverse, hdrop _ (by simpa using h)]
  simp

end PlainText
