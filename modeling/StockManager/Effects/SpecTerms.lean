import StockManager.Effects.SpecDisplays

/-! # What is read of a spec that was shown -/

namespace StockManager.Specs

variable {py : ValueTables} {text : Text}

theorem quiet_value (h : Joined text) : Scan.Quiet (valueHere py) text [] := by
  rintro before rest - hrest
  have hcomma : rest.head? ≠ some ',' := fun heq =>
    absurd (h.chars _ (hrest.subset (List.mem_of_mem_head? heq))) (by decide)
  rw [List.append_nil, valueHere, if_neg fun hcond => hcomma hcond.1]
  rfl

theorem slash_quiet {rest : Text} (hcalm : rest.IsChain Calm) (hslash : rest.head? = some '/') :
    (rest.tail.dropWhile isSpace).head?.any py.isDecimal = false := by
  cases rest with
  | nil => simp at hslash
  | cons c rest =>
    rw [Option.some.inj hslash] at hcalm
    cases rest with
    | nil => rfl
    | cons d rest =>
      have hdegree : d = '°' := (List.isChain_cons_cons.mp hcalm).1.2.2.1 rfl
      rw [hdegree, List.tail_cons, List.dropWhile_cons_of_neg (by decide)]
      exact py.decimal_symbols.2.2

theorem quiet_condition (h : Joined text) : Scan.Quiet (conditionHere py) text [] := by
  rintro before rest - hrest
  have hsuffix : rest.dropWhile isSpace <:+ text := (List.dropWhile_suffix isSpace).trans hrest
  have hcalm := h.calm.suffix hsuffix
  have hmail : rest.head? ≠ some '@' := fun heq =>
    absurd (h.chars _ (hrest.subset (List.mem_of_mem_head? heq))) (by decide)
  have hat : ((rest.dropWhile isSpace).take 2).map foldCase ≠ ['a', 't'] := fun heq => by
    generalize rest.dropWhile isSpace = behind at hcalm heq
    rcases behind with _ | ⟨a, _ | ⟨b, behind⟩⟩
    · simp at heq
    · simp at heq
    · simp only [List.take_succ_cons, List.take_zero, List.map_cons, List.map_nil, List.cons.injEq] at heq
      exact (List.isChain_cons_cons.mp hcalm).1.1 heq.1 heq.2.1
  rw [List.append_nil, conditionHere]
  simp only [if_neg hmail, if_neg fun hcond : _ ∧ _ ∧ _ => hat hcond.2.1]
  rw [if_neg]
  · rfl
  · rintro ⟨-, hslash, hdecimal⟩
    rw [slash_quiet hcalm hslash] at hdecimal
    exact absurd hdecimal (by decide)

theorem dropPlusMinus_joined (h : Joined text) : dropPlusMinus text = text := by
  have hhead {c : Char} (hc : ¬ (c = '-' ∨ c.isDigit)) : text.head? ≠ some c := fun heq => hc (h.starts c heq)
  have hstart {l : Text} (c : Char) (hc : ¬ (c = '-' ∨ c.isDigit)) : ¬ c :: l <+: text := fun hprefix => by
    obtain ⟨rest, rfl⟩ := hprefix
    exact hhead hc rfl
  rw [dropPlusMinus, if_neg (hhead (by decide)), if_neg (hstart '+' (by decide)), if_neg (hstart '+' (by decide))]

theorem headOf_joined (h : Joined text) : headOf py text = stripQualifiers py text.length text := by
  rw [headOf]
  simp only [Scan.split_quiet (quiet_value h), List.head?_cons, Option.getD_some,
    Scan.split_quiet (quiet_condition h), Trim.trim_of_trimmed h.trimmed, dropPlusMinus_joined h]

def shownWord (c : Char) : Bool := c.isAlphanum || c = '_' || c = 'Ω' || c = 'µ'

theorem isWord_shown : ∀ c ∈ shownChars, py.isWord c = shownWord c := by
  have hall : ∀ c ∈ shownChars, (c.toNat < 128 ∧ shownWord c = (c.isAlphanum || c = '_')) ∨
      (c = 'Ω' ∨ c = 'µ') ∧ shownWord c = true ∨ c = '°' ∧ shownWord c = false := by decide
  intro c hc
  obtain ⟨hohm, hmicro, hdegree⟩ := py.word_symbols
  rcases hall c hc with ⟨hlt, heq⟩ | ⟨rfl | rfl, heq⟩ | ⟨rfl, heq⟩
  · rw [py.word_ascii c hlt, heq]
  · rw [hohm, heq]
  · rw [hmicro, heq]
  · rw [hdegree, heq]

theorem takeWhile_shown (h : ∀ c ∈ text, c ∈ shownChars) : text.takeWhile py.isWord = text.takeWhile shownWord := by
  induction text with
  | nil => rfl
  | cons c text ih =>
    rw [List.takeWhile_cons, List.takeWhile_cons, isWord_shown c (h c List.mem_cons_self),
      ih fun d hd => h d (List.mem_cons_of_mem c hd)]

theorem dropOne_of_head {c : Char} (h : text.head? ≠ some c) : dropOne c text = text := by
  rw [dropOne, if_neg h]

theorem qualifierHere_eq_false {before : Option Char} (hopen : (text.dropWhile isSpace).head? ≠ some '(')
    (hword : ((text.dropWhile isSpace).takeWhile py.isWord).map foldCase ∉ qualifierWords) :
    qualifierHere py before text = false := by
  rw [qualifierHere]
  simp only [dropOne_of_head hopen]
  exact decide_eq_false fun h => hword h.2.1

theorem qualifierWords_head : ∀ word ∈ qualifierWords, word.head?.map Char.isDigit = some false := by decide

theorem number_no_qualifier {before : Option Char} {c : Char} (hc : c = '-' ∨ c = '.' ∨ c.isDigit) (rest : Text) :
    qualifierHere py before (c :: rest) = false := by
  have hmem : c ∈ shownChars := by
    rcases hc with rfl | rfl | hdigit
    · decide
    · decide
    · exact mem_shownChars_of_isDigit hdigit
  have hall : ∀ d ∈ shownChars, d = '-' ∨ d = '.' ∨ d.isDigit = true → isSpace d = false ∧ d ≠ '(' ∧
      (foldCase d).isDigit = shownWord d := by decide
  obtain ⟨hspace, hopen, hfold⟩ := hall c hmem hc
  have hdrop : (c :: rest).dropWhile isSpace = c :: rest := List.dropWhile_cons_of_neg (by simp [hspace])
  refine qualifierHere_eq_false ?_ ?_
  · rw [hdrop]
    simpa using hopen
  · rw [hdrop, List.takeWhile_cons, isWord_shown c hmem]
    intro hword
    obtain ⟨d, hd, hletter⟩ := Option.map_eq_some_iff.mp (qualifierWords_head _ hword)
    cases hshown : shownWord c <;> simp only [hshown, if_true, Bool.false_eq_true, if_false, List.map_nil,
      List.map_cons, List.head?_nil, List.head?_cons, reduceCtorEq, Option.some.injEq] at hd
    rw [← hd, hfold, hshown] at hletter
    exact absurd hletter (by decide)

theorem dropQualifier_append {front tail : Text} (before : Option Char)
    (h : ∀ b rest, rest ≠ [] → rest <:+ front → qualifierHere py b (rest ++ tail) = false) :
    dropQualifier py before (front ++ tail) = front ++ dropQualifier py (front.getLast?.or before) tail := by
  induction front generalizing before with
  | nil => rfl
  | cons c front ih =>
    have hstep : qualifierHere py before (c :: (front ++ tail)) = false :=
      h before (c :: front) (List.cons_ne_nil c front) List.suffix_rfl
    rw [Scan.getLast?_cons_or, List.cons_append, dropQualifier, hstep, if_neg Bool.false_ne_true,
      ih (some c) fun b rest hne hrest => h b rest hne (hrest.trans (List.suffix_cons c front)), List.cons_append]

theorem dropQualifier_number (negative : Bool) (n : ℕ) (before : Option Char) (tail : Text) :
    dropQualifier py before (shownNumber negative n ++ tail) = shownNumber negative n ++
      dropQualifier py ((shownNumber negative n).getLast?.or before) tail := by
  refine dropQualifier_append before fun b rest hne hrest => ?_
  cases rest with
  | nil => exact absurd rfl hne
  | cons c rest =>
    exact number_no_qualifier (shownNumber_chars negative n c (hrest.subset List.mem_cons_self)) _

theorem token_words : ∀ entry ∈ unitEntries, ∀ p ∈ displayPrefixes.map Prod.snd, p ++ entry.symbol ≠ ['T', 'A'] →
    ∀ rest ∈ (p ++ entry.symbol).tails, (rest.takeWhile shownWord).map foldCase ∉ qualifierWords := by
  decide

variable {negative : Bool} {n : ℕ} {e : ℤ} {entry : UnitEntry}

def shownToken (e : ℤ) (entry : UnitEntry) : Text := displayPrefix e ++ entry.symbol

theorem dropWhile_token (hentry : entry ∈ unitEntries) {rest : Text} (hrest : rest <:+ gap entry.space ++ shownToken e entry) :
    rest.dropWhile isSpace <:+ shownToken e entry := by
  obtain ⟨-, hchars, -⟩ := token_spec entry hentry _ (displayPrefix_mem e)
  rcases List.suffix_or_suffix_of_suffix hrest (List.suffix_append (gap entry.space) (shownToken e entry)) with h | h
  · exact (List.dropWhile_suffix isSpace).trans h
  · -- only the gap stands before the token
    obtain ⟨front, rfl⟩ := h
    have hfront : front <:+ gap entry.space := by
      obtain ⟨start, hstart⟩ := hrest
      rw [← List.append_assoc] at hstart
      exact ⟨start, List.append_cancel_right hstart⟩
    have hspaces : ∀ c ∈ front, isSpace c = true := fun c hc => by
      have hgap := hfront.subset hc
      cases hs : entry.space <;> rw [gap, hs] at hgap
      · simp at hgap
      · rw [List.mem_singleton.mp hgap]
        decide
    have hsolid : ∀ c ∈ (shownToken e entry).head?, isSpace c = false := fun c hc =>
      solid_not_space c (hchars c (List.mem_of_mem_head? hc))
    rw [Trim.dropWhile_append hspaces hsolid]

theorem dropQualifier_token (hentry : entry ∈ unitEntries) (hta : shownToken e entry ≠ ['T', 'A']) (before : Option Char) :
    dropQualifier py before (gap entry.space ++ shownToken e entry) = gap entry.space ++ shownToken e entry := by
  obtain ⟨-, hchars, -⟩ := token_spec entry hentry _ (displayPrefix_mem e)
  have hquiet := @dropQualifier_append py (gap entry.space ++ shownToken e entry) [] before fun b rest hne hrest => by
    rw [List.append_nil]
    have hsuffix := dropWhile_token hentry hrest
    refine qualifierHere_eq_false (fun hopen => ?_) ?_
    · exact absurd (hchars _ (hsuffix.subset (List.mem_of_mem_head? hopen))).1 (by decide)
    · rw [takeWhile_shown fun c hc => (hchars c (hsuffix.subset hc)).1]
      exact token_words entry hentry _ (displayPrefix_mem e) hta _ ((List.mem_tails _ _).mpr hsuffix)
  rwa [List.append_nil, dropQualifier, List.append_nil] at hquiet

theorem stripQualifiers_of_kept (turns : ℕ) (hkept : dropQualifier py none text = text)
    (htrimmed : Trim.Trimmed isSpace text) : stripQualifiers py turns text = text := by
  cases turns with
  | zero => rfl
  | succ turns =>
    rw [stripQualifiers, hkept, Trim.trim_of_trimmed htrimmed]
    exact if_pos rfl

theorem dropQualifier_shownNumber (before : Option Char) :
    dropQualifier py before (shownNumber negative n) = shownNumber negative n := by
  have hnumber := @dropQualifier_number py negative n before []
  rwa [List.append_nil, dropQualifier, List.append_nil] at hnumber

def readTail (e : ℤ) (entry : UnitEntry) : Text :=
  if shownToken e entry = ['T', 'A'] then [] else gap entry.space ++ shownToken e entry

theorem ambient_space : ∀ entry ∈ unitEntries, ∀ p ∈ displayPrefixes.map Prod.snd,
    p ++ entry.symbol = ['T', 'A'] → entry.space = true := by decide

theorem headOf_displayText (hentry : entry ∈ unitEntries) :
    headOf py (displayText negative n e entry) = shownNumber negative n ++ readTail e entry := by
  have hdisplay := @display_displayText negative n e entry hentry
  rw [headOf_joined hdisplay.joined, readTail]
  split
  next hta =>
    have hspace := ambient_space entry hentry _ (displayPrefix_mem e) hta
    have htext : displayText negative n e entry = shownNumber negative n ++ [' ', 'T', 'A'] := by
      rw [displayText_eq hentry, hspace, ← shownToken, hta]
      rfl
    have hambient (before : Option Char) : qualifierHere py before [' ', 'T', 'A'] = true := by
      have hword : (['T', 'A'] : Text).takeWhile py.isWord = ['T', 'A'] := by
        rw [takeWhile_shown (by decide)]
        decide
      have hrest : (['T', 'A'] : Text).dropWhile py.isWord = [] := by
        have hsplit := List.takeWhile_append_dropWhile (p := py.isWord) (l := ['T', 'A'])
        rw [hword] at hsplit
        simpa using hsplit
      have hblank : py.isWord ' ' = false := by
        rw [isWord_shown _ (by decide)]
        decide
      have hspaces : ([' ', 'T', 'A'] : Text).takeWhile isSpace = [' '] := by decide
      have hinner : ([' ', 'T', 'A'] : Text).dropWhile isSpace = ['T', 'A'] := by decide
      rw [qualifierHere]
      simp only [hspaces, hinner, dropOne, List.head?_cons, Option.some.injEq, Char.reduceEq, if_false, hword, hrest]
      simp [hblank, qualifierWords, foldCase]
    have hdrop : dropQualifier py none (displayText negative n e entry) = shownNumber negative n := by
      rw [htext, dropQualifier_number, dropQualifier, hambient, if_pos rfl, List.append_nil]
    have hnumber : Trim.Trimmed isSpace (shownNumber negative n) := display_shownNumber.joined.trimmed
    have hlength : (displayText negative n e entry).length = (shownNumber negative n).length + 2 + 1 := by
      rw [htext, List.length_append]
      rfl
    have hne : shownNumber negative n ≠ displayText negative n e entry := fun heq => by
      rw [← heq] at hlength
      omega
    rw [hlength, stripQualifiers, hdrop, Trim.trim_of_trimmed hnumber, List.append_nil]
    simp only [if_neg hne]
    exact stripQualifiers_of_kept _ (dropQualifier_shownNumber none) hnumber
  next hta =>
    have hkept : dropQualifier py none (displayText negative n e entry) = displayText negative n e entry := by
      rw [displayText_eq hentry, ← shownToken, dropQualifier_number, dropQualifier_token hentry hta]
    rw [stripQualifiers_of_kept _ hkept hdisplay.joined.trimmed, displayText_eq hentry, ← shownToken]

def readToken (e : ℤ) (entry : UnitEntry) : Text :=
  if shownToken e entry = ['T', 'A'] then [] else shownToken e entry

theorem trim_readTail (hentry : entry ∈ unitEntries) : Trim.trim isSpace (readTail e entry) = readToken e entry := by
  obtain ⟨-, hchars, -⟩ := token_spec entry hentry _ (displayPrefix_mem e)
  have htrimmed : Trim.Trimmed isSpace (shownToken e entry) := .of_forall fun c hc => solid_not_space c (hchars c hc)
  rw [readTail, readToken]
  split
  next => rfl
  next =>
    cases hs : entry.space
    · exact Trim.trim_of_trimmed htrimmed
    · rw [gap, if_pos rfl, List.singleton_append, Trim.trim_cons (by decide), Trim.trim_of_trimmed htrimmed]

theorem endsNumber_token (hentry : entry ∈ unitEntries) :
    EndsNumber py (gap entry.space ++ shownToken e entry) := by
  have hall : ∀ entry ∈ unitEntries, ∀ p ∈ displayPrefixes.map Prod.snd,
      ∀ c ∈ (gap entry.space ++ (p ++ entry.symbol)).head?, (c.toNat < 128 ∧ c.isDigit = false ∨
        c ∈ ['Ω', 'µ', '°']) ∧ c ≠ '.' ∧ c ≠ '/' := by decide
  intro c hc
  obtain ⟨hdecimal, hpoint, hslash⟩ := hall entry hentry _ (displayPrefix_mem e) c hc
  refine ⟨?_, hpoint, hslash⟩
  obtain ⟨hohm, hmicro, hdegree⟩ := py.decimal_symbols
  rcases hdecimal with ⟨hlt, hdigit⟩ | hsymbol
  · rw [py.decimal_ascii c hlt, hdigit]
  · simp only [List.mem_cons, List.not_mem_nil, or_false] at hsymbol
    rcases hsymbol with rfl | rfl | rfl
    · exact hohm
    · exact hmicro
    · exact hdegree

theorem endsNumber_readTail (hentry : entry ∈ unitEntries) : EndsNumber py (readTail e entry) := by
  rw [readTail]
  split
  next => exact fun c hc => absurd hc (by simp)
  next => exact endsNumber_token hentry

theorem scaleb_signed (hn : n < 10 ^ 28) (f : ℤ) :
    scaleb (signed negative ((n : ℚ) / 10 ^ 4)) f = shownValue negative n f := by
  have hscaled := scaleb_shownValue negative hn 0 f
  rwa [shownValue, zpow_zero, mul_one, zero_add] at hscaled

theorem parseScalar_displayText (hentry : entry ∈ unitEntries) (hn : n < 10 ^ 28) (unitHint : Option Text) :
    parseScalar py (displayText negative n e entry) unitHint =
      (resolveUnit (readToken e entry) unitHint).bind fun resolved =>
        (fitToColumn (shownValue negative n resolved.2)).map fun value =>
          ⟨some value, resolved.1, formatSi value resolved.1⟩ := by
  have hne : shownNumber negative n ++ readTail e entry ≠ [] := by simp [shownNumber_ne_nil]
  rw [parseScalar, headOf_displayText hentry, readNumber_shownNumber (endsNumber_readTail hentry)]
  simp only [if_neg hne, Option.bind_some, trim_readTail hentry, scaleb_signed hn]

def ShownExponent (e : ℤ) (entry : UnitEntry) : Prop :=
  e ∈ displayPrefixes.map Prod.fst ∧ (entry.scalable = false → e = 0)

def readUnit (e : ℤ) (symbol hint : Text) : Option (Text × ℤ) :=
  if displayPrefix e ++ symbol = ['T', 'A'] then some (hint, 0)
  else if displayPrefix e ++ symbol = ['m'] ∧ hint ≠ ['m'] then
    if isScalable hint then some (hint, -3) else none
  else some (symbol, e)

theorem resolveUnit_readToken : ∀ entry ∈ unitEntries, ∀ e ∈ displayPrefixes.map Prod.fst,
    (entry.scalable = false → e = 0) → ∀ hint ∈ unitEntries.map UnitEntry.symbol,
      resolveUnit (readToken e entry) (some hint) = readUnit e entry.symbol hint := by
  decide

theorem length_displayText (hentry : entry ∈ unitEntries) (hn : n < 10 ^ 28) :
    (displayText negative n e entry).length ≤ 60 := by
  have htoken : ∀ entry ∈ unitEntries, ∀ p ∈ displayPrefixes.map Prod.snd,
      (gap entry.space ++ (p ++ entry.symbol)).length ≤ 8 := by decide
  have hwhole : (Nat.toDigits 10 (n / 10000)).length ≤ 24 := by
    rw [Nat.length_toDigits_le_iff (by norm_num) (by norm_num)]
    omega
  have hfraction : (fractionText (n % 10000)).length ≤ 5 := by
    have hkept := (dropZeros_fourDigits (Nat.mod_lt n (by norm_num : 0 < 10000))).2.1
    rw [fractionText]
    split
    · simp
    · rw [List.length_cons]
      omega
  have hsign : (if negative = true then ['-'] else []).length ≤ 1 := by cases negative <;> simp
  have hlast := htoken entry hentry _ (displayPrefix_mem e)
  rw [displayText_eq hentry, shownNumber, List.length_append, List.length_append, List.length_append]
  omega

theorem parseWith_displayText (hentry : entry ∈ unitEntries) (he : ShownExponent e entry) (hn : n < 10 ^ 28)
    {hint : Text} (hhint : hint ∈ unitEntries.map UnitEntry.symbol) (depth : ℕ) :
    parseWith py (depth + 1) (displayText negative n e entry) (some hint) =
      (readUnit e entry.symbol hint).bind fun resolved =>
        (fitToColumn (shownValue negative n resolved.2)).map fun value =>
          ⟨some value, resolved.1, formatSi value resolved.1⟩ := by
  have hdisplay := @display_displayText negative n e entry hentry
  have hlength := (@length_displayText negative n e entry hentry hn).trans (by decide : 60 ≤ maxInputChars)
  rw [parseWith, bodyOf_joined hdisplay.joined hlength, Option.bind_some,
    rangeParts_display hdisplay, Option.bind_none, Option.none_or, parseScalar_displayText hentry hn,
    resolveUnit_readToken entry hentry e he.1 he.2 hint hhint]

theorem fitToColumn_shownValue (he : -12 ≤ e) :
    fitToColumn (shownValue negative n e) =
      if 10 ^ 18 ≤ |shownValue negative n e| then none else some (shownValue negative n e) := by
  by_cases hn : n = 0
  · have hzero : shownValue negative n e = 0 := by
      cases negative <;> simp [shownValue, signed, hn]
    rw [hzero, fitToColumn, if_pos rfl, if_neg (by norm_num)]
  · have hne := shownValue_ne_zero negative hn e
    have htop : adjusted (shownValue negative n e) ≤ 17 ↔ ¬ 10 ^ 18 ≤ |shownValue negative n e| := by
      rw [not_le, show (10 : ℚ) ^ 18 = 10 ^ (18 : ℤ) by norm_cast, adjusted_lt hne]
      omega
    have hbottom : -18 ≤ adjusted (shownValue negative n e) := by
      rw [← le_adjusted hne, abs_shownValue]
      have hone : (1 : ℚ) ≤ n := by exact_mod_cast Nat.one_le_iff_ne_zero.mpr hn
      have hexponent : (10 : ℚ) ^ (-12 : ℤ) ≤ 10 ^ e := zpow_le_zpow_right₀ (by norm_num) he
      have hsmall : (10 : ℚ) ^ (-18 : ℤ) ≤ 1 / 10 ^ 4 * 10 ^ (-12 : ℤ) := by norm_num
      refine hsmall.trans (mul_le_mul ?_ hexponent (zpow_pos (by norm_num) _).le (by positivity))
      exact div_le_div_of_nonneg_right hone (by norm_num)
    have hinteger : ∃ m : ℤ, shownValue negative n e * 10 ^ 18 = m := by
      obtain ⟨k, hk⟩ := Int.eq_ofNat_of_zero_le (by omega : 0 ≤ e + 14)
      have hscale : (n : ℚ) / 10 ^ 4 * 10 ^ e * 10 ^ 18 = n * 10 ^ k := by
        have hpow : (10 : ℚ) ^ e * 10 ^ (14 : ℤ) = 10 ^ k := by
          rw [← zpow_add₀ (by norm_num), hk]
          norm_cast
        rw [← hpow]
        norm_num
        ring
      cases negative
      · exact ⟨n * 10 ^ k, by rw [shownValue, signed, if_neg (by decide), hscale]; norm_cast⟩
      · refine ⟨-(n * 10 ^ k), ?_⟩
        rw [shownValue, signed, if_pos rfl, neg_mul, neg_mul, hscale]
        norm_cast
    obtain ⟨m, hm⟩ := hinteger
    rw [fitToColumn, if_neg hne]
    split
    next h => rw [if_neg (htop.mp h.2), DecimalContext.toPlaces_roundHalfUp_eq hm]
    next h => rw [if_pos (by_contra fun hlt => h ⟨hbottom, htop.mpr hlt⟩)]

section Shown

variable {v : ℚ} {unit hint : Text}

theorem unitBySymbol_spec : ∀ unit ∈ unitEntries.map UnitEntry.symbol,
    unitBySymbol unit ∈ unitEntries ∧ (unitBySymbol unit).symbol = unit := by decide

theorem WellShown.exponent {n : ℕ} {e : ℤ} (h : WellShown n e) : e ∈ displayPrefixes.map Prod.fst := by
  obtain ⟨hlower, hupper, htriple, -, -⟩ := h
  interval_cases e <;> first | decide | omega

theorem shownOf_exponent (v : ℚ) (entry : UnitEntry) : ShownExponent (shownOf v entry.scalable).2 entry := by
  rw [shownOf]
  split
  next => exact ⟨(by decide : (0 : ℤ) ∈ displayPrefixes.map Prod.fst), fun _ => rfl⟩
  next h =>
    push Not at h
    exact ⟨(engineering_wellShown h.2).1.exponent, fun hfixed => absurd hfixed h.1⟩

theorem engineering_fst (v : ℚ) : (engineering v).1 = scaleb v (-(engineering v).2) := by
  rw [engineering]
  split <;> rfl

theorem shownOf_lt (hv : |v| ≤ 10 ^ 18) (scalable : Bool) : (shownOf v scalable).1 < 10 ^ 28 := by
  have hsmall {m : ℚ} (hm : |m| ≤ 10 ^ 18) : tenThousandths m < 10 ^ 28 := by
    by_contra hlt
    push Not at hlt
    rw [le_tenThousandths] at hlt
    push_cast at hlt
    norm_num at hm hlt
    linarith
  rw [shownOf]
  split
  next => exact hsmall hv
  next h =>
    push Not at h
    obtain ⟨hwell, -⟩ := engineering_wellShown h.2
    rcases hwell.lt_thousand with htop | hlt
    · refine hsmall ?_
      obtain ⟨-, hhigh⟩ := scaleb_bounds h.2 (-12)
      have hadjusted : adjusted v < 19 := by
        rw [← adjusted_lt h.2]
        exact hv.trans_lt (by norm_num)
      rw [engineering_fst, htop]
      refine hhigh.trans ?_
      rw [show (10 : ℚ) ^ 18 = 10 ^ (18 : ℤ) by norm_cast]
      exact zpow_le_zpow_right₀ (by norm_num) (by omega)
    · exact hlt.trans (by norm_num)

/-- How a value that was shown is read under a hint. -/
theorem parseWith_formatSi (hunit : unit ∈ unitEntries.map UnitEntry.symbol)
    (hhint : hint ∈ unitEntries.map UnitEntry.symbol) (hv : |v| ≤ 10 ^ 18) (depth : ℕ) :
    parseWith py (depth + 1) (formatSi v unit) (some hint) =
      (readUnit (shownOf v (isScalable unit)).2 unit hint).bind fun resolved =>
        (fitToColumn (shownValue (v < 0) (shownOf v (isScalable unit)).1 resolved.2)).map fun value =>
          ⟨some value, resolved.1, formatSi value resolved.1⟩ := by
  obtain ⟨hentry, hsymbol⟩ := unitBySymbol_spec unit hunit
  have hexponent : ShownExponent (shownOf v (isScalable unit)).2 (unitBySymbol unit) := shownOf_exponent v _
  rw [formatSi_eq, parseWith_displayText hentry hexponent (shownOf_lt hv _) hhint, hsymbol]

end Shown

end StockManager.Specs
