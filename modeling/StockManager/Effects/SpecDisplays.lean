import StockManager.Effects.SpecNumbers

/-! # The texts that specs are shown as -/

namespace StockManager.Specs

open Trim (Trimmed trim)

variable {py : ValueTables}

/-- Only the characters of the text are tried, not all characters. -/
scoped instance (priority := 2000) decidableForallChars (p : Char → Prop) [DecidablePred p] (text : Text) :
    Decidable (∀ c ∈ text, p c) :=
  List.decidableBAll p text

scoped instance (priority := 2000) decidableForallChar (p : Char → Prop) [DecidablePred p]
    (c? : Option Char) : Decidable (∀ c ∈ c?, p c) :=
  Option.decidableForallMem c?

def shownOf (value : ℚ) (scalable : Bool) : ℕ × ℤ :=
  if scalable = false ∨ value = 0 then (tenThousandths value, 0)
  else (tenThousandths (engineering value).1, (engineering value).2)

def displayText (negative : Bool) (n : ℕ) (e : ℤ) (entry : UnitEntry) : Text :=
  join (shownNumber negative n) (displayPrefix e ++ entry.symbol) entry.space

theorem formatSi_eq (value : ℚ) (unit : Text) :
    formatSi value unit = displayText (value < 0) (shownOf value (isScalable unit)).1
      (shownOf value (isScalable unit)).2 (unitBySymbol unit) := by
  rw [formatSi, shownOf, isScalable]
  split
  next => rw [trimNumber_eq]; rfl
  next h =>
    push Not at h
    dsimp only
    rw [trimNumber_eq, displayText, decide_eq_decide.mpr (engineering_wellShown h.2).2]

def shownChars : List Char :=
  ['0', '1', '2', '3', '4', '5', '6', '7', '8', '9', '-', '.', ' ', 'T', 'G', 'M', 'k', 'm', 'µ', 'n', 'p',
    'Ω', 'F', 'H', 'V', 'A', 'W', 'z', 's', 'c', 'd', 'y', 'l', 'e', '%', '/', '°', 'C', 'N']

def Calm (a b : Char) : Prop :=
  (foldCase a = 'a' → foldCase b ≠ 't') ∧ (a = '.' → b ≠ '.') ∧ (a = '/' → b = '°') ∧ (a = ' ' → b ≠ ' ')

instance : DecidableRel Calm := fun a b => by unfold Calm; infer_instance

theorem mem_shownChars_of_isDigit {c : Char} (h : c.isDigit) : c ∈ shownChars := by
  have htoNat := Char.isDigit_iff_toNat.mp h
  simp only [Char.reduceToNat] at htoNat
  have hc : c = Char.ofNat c.toNat := (Char.ofNat_toNat c).symm
  obtain ⟨hlow, hhigh⟩ := htoNat
  interval_cases c.toNat <;> rw [hc] <;> decide

theorem shownChars_spec : ∀ c ∈ shownChars, (isSpace c = true → c = ' ') ∧ foldCase c ≠ 'o' ∧ foldCase c ≠ 'x' ∧
    c ∉ [',', '@', '~', '…', '(', ')', '×'] := by decide

theorem solid_not_space (c : Char) (h : c ∈ shownChars ∧ c ≠ ' ') : isSpace c = false :=
  Bool.eq_false_iff.mpr fun hspace => h.2 ((shownChars_spec c h.1).1 hspace)

theorem calm_digit {a b : Char} (h : a.isDigit) : Calm a b := by
  have hmem := mem_shownChars_of_isDigit h
  have hall : ∀ c ∈ shownChars, c.isDigit = true → foldCase c ≠ 'a' ∧ c ≠ '.' ∧ c ≠ '/' ∧ c ≠ ' ' := by decide
  obtain ⟨h1, h2, h3, h4⟩ := hall a hmem h
  exact ⟨fun hc => absurd hc h1, fun hc => absurd hc h2, fun hc => absurd hc h3, fun hc => absurd hc h4⟩

theorem chain_digits {digits : Text} (h : ∀ c ∈ digits, c.isDigit) : digits.IsChain Calm := by
  induction digits with
  | nil => exact List.IsChain.nil
  | cons c digits ih =>
    rw [List.isChain_cons]
    exact ⟨fun d _ => calm_digit (h c List.mem_cons_self), ih fun d hd => h d (List.mem_cons_of_mem c hd)⟩

theorem displayPrefix_mem (e : ℤ) : displayPrefix e ∈ displayPrefixes.map Prod.snd := by
  rw [displayPrefix]
  cases h : Dict.find e displayPrefixes with
  | none => decide
  | some text => exact List.mem_map_of_mem (f := Prod.snd) (Dict.mem_of_find h)

theorem token_spec : ∀ entry ∈ unitEntries, ∀ p ∈ displayPrefixes.map Prod.snd,
    (p ++ entry.symbol).IsChain Calm ∧ (∀ c ∈ p ++ entry.symbol, c ∈ shownChars ∧ c ≠ ' ') ∧ entry.symbol ≠ [] ∧
      ∀ c ∈ (p ++ entry.symbol).getLast?, c ≠ '/' := by
  decide

/-- The texts the patterns leave alone -/
structure Display (text : Text) : Prop where
  chars : ∀ c ∈ text, c ∈ shownChars
  calm : text.IsChain Calm
  starts : ∀ c ∈ text.head?, c = '-' ∨ c.isDigit
  ends : ∀ c ∈ text.getLast?, c ≠ ' ' ∧ c ≠ '/'
  digit : ∃ c ∈ text, c.isDigit

theorem fractionText_spec (n : ℕ) : (∀ c ∈ fractionText n, c = '.' ∨ c.isDigit) ∧ (fractionText n).IsChain Calm ∧
    ∀ c ∈ (fractionText n).getLast?, c.isDigit := by
  obtain ⟨k, hk⟩ := dropZeros_append (fourDigits n)
  have hdigits : ∀ c ∈ dropZeros (fourDigits n), c.isDigit := fun c hc =>
    isDigit_fourDigits n c (hk ▸ List.mem_append_left _ hc)
  rw [fractionText]
  split
  next => simp
  next hne =>
    refine ⟨?_, ?_, ?_⟩
    · intro c hc
      exact (List.mem_cons.mp hc).imp_right (hdigits c)
    · rw [List.isChain_cons]
      refine ⟨fun c hc => ?_, chain_digits hdigits⟩
      have hdigit := hdigits c (List.mem_of_mem_head? hc)
      refine ⟨fun h => absurd h (by decide), fun _ heq => ?_, fun h => absurd h (by decide),
        fun h => absurd h (by decide)⟩
      rw [heq] at hdigit
      exact absurd hdigit (by decide)
    · rw [List.getLast?_cons_of_ne_nil hne]
      exact fun c hc => hdigits c (List.mem_of_mem_getLast? hc)

theorem shownNumber_chars (negative : Bool) (n : ℕ) :
    ∀ c ∈ shownNumber negative n, c = '-' ∨ c = '.' ∨ c.isDigit := by
  intro c hc
  rw [shownNumber, List.append_assoc, List.mem_append, List.mem_append] at hc
  rcases hc with hc | hc | hc
  · cases negative
    · simp at hc
    · exact .inl (by simpa using hc)
  · exact .inr (.inr (isDigit_toDigits c hc))
  · exact .inr ((fractionText_spec _).1 c hc)

theorem shownNumber_solid (negative : Bool) (n : ℕ) : ∀ c ∈ shownNumber negative n, c ∈ shownChars ∧ c ≠ ' ' := by
  intro c hc
  rcases shownNumber_chars negative n c hc with rfl | rfl | hdigit
  · decide
  · decide
  · exact ⟨mem_shownChars_of_isDigit hdigit, fun heq => by rw [heq] at hdigit; exact absurd hdigit (by decide)⟩

theorem shownNumber_ne_nil (negative : Bool) (n : ℕ) : shownNumber negative n ≠ [] := by
  simp [shownNumber, Nat.toDigits_ne_nil]

theorem shownNumber_last (negative : Bool) (n : ℕ) : ∀ c ∈ (shownNumber negative n).getLast?, c.isDigit := by
  intro c hc
  rw [shownNumber] at hc
  by_cases hfraction : fractionText (n % 10000) = []
  · rw [hfraction, List.append_nil, List.getLast?_append_of_ne_nil _ Nat.toDigits_ne_nil] at hc
    exact isDigit_toDigits c (List.mem_of_mem_getLast? hc)
  · rw [List.getLast?_append_of_ne_nil _ hfraction] at hc
    exact (fractionText_spec _).2.2 c hc

theorem shownNumber_head (negative : Bool) (n : ℕ) :
    ∀ c ∈ (shownNumber negative n).head?, c = '-' ∨ c.isDigit := by
  intro c hc
  cases negative
  · rw [shownNumber, if_neg (by decide), List.nil_append, List.head?_append_of_ne_nil _ Nat.toDigits_ne_nil] at hc
    exact .inr (isDigit_toDigits c (List.mem_of_mem_head? hc))
  · exact .inl (Option.some.inj hc).symm

theorem shownNumber_calm (negative : Bool) (n : ℕ) : (shownNumber negative n).IsChain Calm := by
  have hwhole : (Nat.toDigits 10 (n / 10000)).IsChain Calm := chain_digits isDigit_toDigits
  have hnumber : (Nat.toDigits 10 (n / 10000) ++ fractionText (n % 10000)).IsChain Calm :=
    hwhole.append (fractionText_spec _).2.1 fun c hc d _ =>
      calm_digit (isDigit_toDigits c (List.mem_of_mem_getLast? hc))
  rw [shownNumber, List.append_assoc]
  cases negative
  · exact hnumber
  · refine List.IsChain.append (.singleton _) hnumber fun c hc d _ => ?_
    have hminus : c = '-' := (Option.some.inj hc).symm
    rw [hminus]
    exact ⟨fun h => absurd h (by decide), fun h => absurd h (by decide), fun h => absurd h (by decide),
      fun h => absurd h (by decide)⟩

theorem shownNumber_digit (negative : Bool) (n : ℕ) : ∃ c ∈ shownNumber negative n, c.isDigit :=
  ⟨_, List.mem_of_mem_getLast? (List.getLast?_eq_getLast_of_ne_nil (shownNumber_ne_nil negative n)),
    shownNumber_last negative n _ (List.getLast?_eq_getLast_of_ne_nil (shownNumber_ne_nil negative n))⟩

def gap (space : Bool) : Text := if space then [' '] else []

variable {negative : Bool} {n : ℕ} {e : ℤ} {entry : UnitEntry}

theorem token_ne_nil (hentry : entry ∈ unitEntries) (e : ℤ) : displayPrefix e ++ entry.symbol ≠ [] := by
  have hsymbol := (token_spec entry hentry _ (displayPrefix_mem e)).2.2.1
  simp [hsymbol]

theorem displayText_eq (hentry : entry ∈ unitEntries) :
    displayText negative n e entry =
      shownNumber negative n ++ (gap entry.space ++ (displayPrefix e ++ entry.symbol)) := by
  obtain ⟨-, hchars, -⟩ := token_spec entry hentry _ (displayPrefix_mem e)
  rw [displayText, join, gap]
  cases entry.space
  · rfl
  · have hnumber : Trimmed isSpace (shownNumber negative n) := .of_forall fun c hc => by
      exact solid_not_space c (shownNumber_solid negative n c hc)
    have htoken : Trimmed isSpace (displayPrefix e ++ entry.symbol) := .of_forall fun c hc => by
      exact solid_not_space c (hchars c hc)
    exact Trim.trim_of_trimmed
      (hnumber.join htoken (shownNumber_ne_nil negative n) (token_ne_nil hentry e) [' '])

theorem display_displayText (hentry : entry ∈ unitEntries) : Display (displayText negative n e entry) := by
  obtain ⟨hcalm, hchars, -, hslash⟩ := token_spec entry hentry _ (displayPrefix_mem e)
  have htoken := token_ne_nil hentry e
  have hgap : (gap entry.space ++ (displayPrefix e ++ entry.symbol)).IsChain Calm := by
    refine List.IsChain.append (by cases entry.space <;> simp [gap]) hcalm fun c hc d hd => ?_
    have hspace : c = ' ' := by
      cases hs : entry.space <;> rw [gap, hs] at hc
      · simp at hc
      · exact (Option.some.inj hc).symm
    rw [hspace]
    exact ⟨fun h => absurd h (by decide), fun h => absurd h (by decide), fun h => absurd h (by decide),
      fun _ => (hchars d (List.mem_of_mem_head? hd)).2⟩
  rw [displayText_eq hentry]
  refine ⟨?_, ?_, ?_, ?_, ?_⟩
  · intro c hc
    rw [List.mem_append, List.mem_append] at hc
    rcases hc with hc | hc | hc
    · exact (shownNumber_solid negative n c hc).1
    · cases hs : entry.space <;> rw [gap, hs] at hc
      · simp at hc
      · rw [List.mem_singleton.mp hc]
        decide
    · exact (hchars c hc).1
  · exact (shownNumber_calm negative n).append hgap fun c hc d _ => calm_digit (shownNumber_last negative n c hc)
  · rw [List.head?_append_of_ne_nil _ (shownNumber_ne_nil negative n)]
    exact shownNumber_head negative n
  · rw [← List.append_assoc, List.getLast?_append_of_ne_nil _ htoken]
    exact fun c hc => ⟨(hchars c (List.mem_of_mem_getLast? hc)).2, hslash c hc⟩
  · obtain ⟨c, hc, hdigit⟩ := shownNumber_digit negative n
    exact ⟨c, List.mem_append_left _ hc, hdigit⟩

theorem display_shownNumber : Display (shownNumber negative n) where
  chars c hc := (shownNumber_solid negative n c hc).1
  calm := shownNumber_calm negative n
  starts := shownNumber_head negative n
  ends c hc := by
    have hdigit := shownNumber_last negative n c hc
    exact ⟨(shownNumber_solid negative n c (List.mem_of_mem_getLast? hc)).2, fun heq => by
      rw [heq] at hdigit
      exact absurd hdigit (by decide)⟩
  digit := shownNumber_digit negative n

def rangeText (pieces : List Text) : Text := [' ', '~', ' '].intercalate pieces

/-- The displays and the joined texts -/
structure Joined (text : Text) : Prop where
  chars : ∀ c ∈ text, c ∈ '~' :: shownChars
  calm : text.IsChain Calm
  starts : ∀ c ∈ text.head?, c = '-' ∨ c.isDigit
  ends : ∀ c ∈ text.getLast?, c ≠ ' ' ∧ c ≠ '/'
  digit : ∃ c ∈ text, c.isDigit

theorem Display.joined {text : Text} (h : Display text) : Joined text :=
  ⟨fun c hc => List.mem_cons_of_mem _ (h.chars c hc), h.calm, h.starts, h.ends, h.digit⟩

theorem Display.ne_nil {text : Text} (h : Display text) : text ≠ [] := by
  obtain ⟨c, hc, -⟩ := h.digit
  exact List.ne_nil_of_mem hc

theorem joined_rangeText {pieces : List Text} (hne : pieces ≠ []) (h : ∀ piece ∈ pieces, Display piece) :
    Joined (rangeText pieces) := by
  induction pieces with
  | nil => exact absurd rfl hne
  | cons piece pieces ih =>
    have hpiece := h piece List.mem_cons_self
    by_cases hlast : pieces = []
    · rw [hlast, rangeText, Scan.intercalate_singleton]
      exact hpiece.joined
    · have hrest := ih hlast fun p hp => h p (List.mem_cons_of_mem piece hp)
      have hnil : rangeText pieces ≠ [] := by
        obtain ⟨c, hc, -⟩ := hrest.digit
        exact List.ne_nil_of_mem hc
      rw [rangeText, Scan.intercalate_cons hlast, ← rangeText]
      refine ⟨?_, ?_, ?_, ?_, ?_⟩
      · intro c hc
        rw [List.mem_append, List.mem_append] at hc
        rcases hc with hc | hc | hc
        · exact hpiece.joined.chars c hc
        · exact (by decide : ∀ d ∈ [' ', '~', ' '], d ∈ '~' :: shownChars) c hc
        · exact hrest.chars c hc
      · refine hpiece.calm.append (List.IsChain.append (by decide) hrest.calm fun c hc d hd => ?_) fun c hc d hd => ?_
        · have hspace : c = ' ' := (Option.some.inj hc).symm
          have hstart := hrest.starts d hd
          rw [hspace]
          refine ⟨fun h => absurd h (by decide), fun h => absurd h (by decide), fun h => absurd h (by decide),
            fun _ heq => ?_⟩
          rw [heq] at hstart
          exact absurd hstart (by decide)
        · have hspace : d = ' ' := (Option.some.inj hd).symm
          obtain ⟨hblank, hslash⟩ := hpiece.ends c hc
          rw [hspace]
          exact ⟨fun _ => by decide, fun _ => by decide, fun h => absurd h hslash, fun h => absurd h hblank⟩
      · rw [List.head?_append_of_ne_nil _ hpiece.ne_nil]
        exact hpiece.starts
      · rw [← List.append_assoc, List.getLast?_append_of_ne_nil _ hnil]
        exact hrest.ends
      · obtain ⟨c, hc, hdigit⟩ := hpiece.digit
        exact ⟨c, List.mem_append_left _ hc, hdigit⟩

section Body

variable {text : Text}

theorem joinedChars_spec : ∀ c ∈ '~' :: shownChars, (isSpace c = true → c = ' ') ∧ foldCase c ≠ 'o' ∧
    c ∉ [',', '@', '…', '(', ')'] := by decide

theorem Joined.trimmed (h : Joined text) : Trimmed isSpace text := by
  have hstart : ∀ c : Char, c = '-' ∨ c.isDigit → isSpace c = false := fun c hc => by
    refine solid_not_space c ?_
    rcases hc with rfl | hdigit
    · decide
    · exact ⟨mem_shownChars_of_isDigit hdigit, fun heq => by rw [heq] at hdigit; exact absurd hdigit (by decide)⟩
  refine ⟨fun c hc => hstart c (h.starts c hc), fun c hc => ?_⟩
  refine Bool.eq_false_iff.mpr fun hspace => (h.ends c hc).1 ?_
  exact (joinedChars_spec c (h.chars c (List.mem_of_mem_getLast? hc))).1 hspace

theorem substitute_whitespace (hchars : ∀ c ∈ text, isSpace c = true → c = ' ') (hcalm : text.IsChain Calm)
    (before : Option Char) :
    [' '].intercalate (Scan.splitFrom whitespaceHere 0 before text) = text := by
  induction text generalizing before with
  | nil => rfl
  | cons c rest ih =>
    rw [List.isChain_cons] at hcalm
    have hrest := ih (fun d hd => hchars d (List.mem_cons_of_mem c hd)) hcalm.2 (some c)
    by_cases hspace : isSpace c = true
    · have hc := hchars c List.mem_cons_self hspace
      have hnext : ∀ d ∈ rest.head?, isSpace d = false := fun d hd => by
        refine Bool.eq_false_iff.mpr fun hd' => ?_
        exact (hcalm.1 d hd).2.2.2 hc (hchars d (List.mem_cons_of_mem c (List.mem_of_mem_head? hd)) hd')
      have hmatch : whitespaceHere before (c :: rest) = some 1 := by
        rw [whitespaceHere, List.takeWhile_cons_of_pos hspace, Trim.takeWhile_of_head hnext]
        rfl
      rw [Scan.splitFrom_match hmatch, Scan.intercalate_cons (Scan.splitFrom_ne_nil _ _ _), hrest, hc]
      rfl
    · have hmatch : whitespaceHere before (c :: rest) = some 0 := by
        rw [whitespaceHere, List.takeWhile_cons_of_neg hspace]
        rfl
      rw [Scan.splitFrom_step (by rw [hmatch]; rfl), Scan.intercalate_consFirst (Scan.splitFrom_ne_nil _ _ _), hrest]

theorem quiet_thousands (h : Joined text) : Scan.Quiet (thousandsHere py) text [] := by
  rintro before rest - hrest
  have hcomma : rest.head? ≠ some ',' := fun heq => by
    have hmem := hrest.subset (List.mem_of_mem_head? heq)
    exact absurd (h.chars _ hmem) (by decide)
  rw [List.append_nil, thousandsHere, if_neg fun hcond => hcomma hcond.1]
  rfl

theorem bodyOf_eq (h : Joined text) : bodyOf py text = if maxInputChars < text.length then none else some text := by
  have hspace : ∀ c ∈ text, isSpace c = true → c = ' ' := fun c hc => (joinedChars_spec c (h.chars c hc)).1
  obtain ⟨c, hc, hdigit⟩ := h.digit
  have hnil : text ≠ [] := List.ne_nil_of_mem hc
  have hdash : text ∉ dashes := fun hmem => by
    have hall : ∀ dash ∈ dashes, ∀ d ∈ dash, d.isDigit = false := by decide
    rw [hall text hmem c hc] at hdigit
    exact absurd hdigit (by decide)
  rw [bodyOf, Scan.substitute, Scan.split, substitute_whitespace hspace h.calm none,
    Trim.trim_of_trimmed h.trimmed, Scan.substitute_quiet _ (quiet_thousands h)]
  refine if_congr ?_ rfl rfl
  rw [or_iff_right hnil, or_iff_right hdash]

theorem bodyOf_joined (h : Joined text) (hlength : text.length ≤ maxInputChars) : bodyOf py text = some text := by
  rw [bodyOf_eq h, if_neg (by omega)]

theorem separatorLength_eq_zero {before : Option Char} (hchars : ∀ c ∈ text, c ∈ '~' :: shownChars)
    (hcalm : text.IsChain Calm) (hhead : text.head? ≠ some '~') : separatorLength py before text = 0 := by
  have hdots : ¬ ['.', '.', '.'] <+: text := fun h => by
    obtain ⟨rest, rfl⟩ := h
    exact absurd ((List.isChain_cons_cons.mp hcalm).1.2.1 rfl) (by decide)
  have hellipsis : text.head? ≠ some '…' := fun heq =>
    absurd (hchars _ (List.mem_of_mem_head? heq)) (by decide)
  have hto : (text.take 2).map foldCase ≠ ['t', 'o'] := fun heq => by
    have hmem : 'o' ∈ (text.take 2).map foldCase := by rw [heq]; decide
    obtain ⟨c, hc, hfold⟩ := List.mem_map.mp hmem
    exact (joinedChars_spec c (hchars c (List.mem_of_mem_take hc))).2.1 hfold
  rw [separatorLength, if_neg hhead, if_neg hdots, if_neg hellipsis, if_neg fun h => hto h.1]

theorem dropWhile_suffix_append {front tail rest : Text} (h : Display front) (hne : rest ≠ []) (hrest : rest <:+ front) :
    (rest ++ tail).dropWhile isSpace = rest.dropWhile isSpace ++ tail ∧ rest.dropWhile isSpace ≠ [] := by
  have hsome : rest.dropWhile isSpace ≠ [] := fun hnil => by
    have hlast := List.getLast?_eq_getLast_of_ne_nil hne
    have hfront : front.getLast? = rest.getLast? := by
      obtain ⟨start, rfl⟩ := hrest
      rw [List.getLast?_append_of_ne_nil _ hne]
    have hspace := List.dropWhile_eq_nil_iff.mp hnil _ (List.getLast_mem hne)
    have hmem := h.ends _ (hfront.trans hlast)
    exact hmem.1 ((shownChars_spec _ (h.chars _ (hrest.subset (List.getLast_mem hne)))).1 hspace)
  refine ⟨?_, hsome⟩
  rw [List.dropWhile_append, if_neg (by simpa using hsome)]

theorem quiet_range {front tail : Text} (h : Display front) (hjoined : Joined (front ++ tail)) :
    Scan.Quiet (rangeHere py) front tail := by
  rintro before rest hne hrest
  obtain ⟨hdrop, hsome⟩ := @dropWhile_suffix_append front tail rest h hne hrest
  have hsuffix : rest.dropWhile isSpace ++ tail <:+ front ++ tail := by
    obtain ⟨start, hstart⟩ := (List.dropWhile_suffix isSpace).trans hrest
    exact ⟨start, by rw [← List.append_assoc, hstart]⟩
  have hhead : (rest.dropWhile isSpace ++ tail).head? ≠ some '~' := fun heq => by
    rw [List.head?_append_of_ne_nil _ hsome] at heq
    have hmem := hrest.subset ((List.dropWhile_suffix isSpace).subset (List.mem_of_mem_head? heq))
    exact absurd (h.chars _ hmem) (by decide)
  have hlength := fun b => @separatorLength_eq_zero py _ b (fun c hc => hjoined.chars c (hsuffix.subset hc))
    (hjoined.calm.suffix hsuffix) hhead
  rw [rangeHere, hdrop]
  simp only [hlength, if_true]
  rfl

theorem rangeHere_separator {before : Option Char} (h : ∀ c ∈ text.head?, isSpace c = false) :
    rangeHere py before ([' ', '~', ' '] ++ text) = some 3 := by
  have htake : ([' ', '~', ' '] ++ text).takeWhile isSpace = [' '] := by
    simp [show isSpace ' ' = true from by decide, show isSpace '~' = false from by decide]
  have hdrop : ([' ', '~', ' '] ++ text).dropWhile isSpace = '~' :: ' ' :: text := by
    simp [show isSpace ' ' = true from by decide, show isSpace '~' = false from by decide]
  have hbehind : ((' ' :: text).takeWhile isSpace) = [' '] := by
    rw [List.takeWhile_cons_of_pos (by decide), Trim.takeWhile_of_head h]
  rw [rangeHere, htake, hdrop]
  simp [separatorLength, hbehind]

theorem splitFrom_rangeText {pieces : List Text} (hne : pieces ≠ []) (h : ∀ piece ∈ pieces, Display piece)
    (before : Option Char) : Scan.splitFrom (rangeHere py) 0 before (rangeText pieces) = pieces := by
  induction pieces generalizing before with
  | nil => exact absurd rfl hne
  | cons piece pieces ih =>
    have hpiece := h piece List.mem_cons_self
    by_cases hlast : pieces = []
    · have hquiet := @quiet_range py piece [] hpiece (by rw [List.append_nil]; exact hpiece.joined)
      have hsplit := Scan.splitFrom_quiet hquiet before
      rw [List.append_nil] at hsplit
      rw [hlast, rangeText, Scan.intercalate_singleton, hsplit, Scan.splitFrom, Scan.appendFirst, List.append_nil]
    · have hall := fun p hp => h p (List.mem_cons_of_mem piece hp)
      have hrest := joined_rangeText hlast hall
      have hjoined := joined_rangeText hne h
      rw [rangeText, Scan.intercalate_cons hlast, ← rangeText] at hjoined ⊢
      have hquiet := @quiet_range py piece _ hpiece hjoined
      rw [Scan.splitFrom_separator (by decide) hquiet (rangeHere_separator hrest.trimmed.1), ih hlast hall]

theorem rangeParts_display {piece : Text} (h : Display piece) : rangeParts py piece = none := by
  have hsplit := @splitFrom_rangeText py [piece] (by simp) (by simpa using h) none
  rw [rangeText, Scan.intercalate_singleton] at hsplit
  rw [rangeParts, Scan.split, hsplit]

/-- A displayed range of two texts is split into the two again. -/
theorem rangeParts_two {low high : Text} (hlow : Display low) (hhigh : Display high) :
    rangeParts py (rangeText [low, high]) = some (low, high) := by
  have hsplit := @splitFrom_rangeText py [low, high] (by simp) (by simp [hlow, hhigh]) none
  rw [rangeParts, Scan.split, hsplit]
  simp only
  rw [Trim.trim_of_trimmed hlow.joined.trimmed, Trim.trim_of_trimmed hhigh.joined.trimmed,
    if_neg (not_or.mpr ⟨hlow.ne_nil, hhigh.ne_nil⟩)]

theorem rangeParts_many {pieces : List Text} (h : ∀ piece ∈ pieces, Display piece) (hmany : 3 ≤ pieces.length) :
    rangeParts py (rangeText pieces) = none := by
  have hne : pieces ≠ [] := fun heq => by simp [heq] at hmany
  rw [rangeParts, Scan.split, splitFrom_rangeText hne h]
  split
  next low high => simp at hmany
  next => rfl

end Body

end StockManager.Specs
