import StockManager.Effects.SpecRereads

/-! # The numbers a text is read as, and ranges read again -/

namespace StockManager.Specs

open Trim (trim)

variable {py : ValueTables} {text : Text} {hint : Text}

theorem mem_dropOne {c d : Char} (hne : d ≠ c) (h : d ∈ text) : d ∈ dropOne c text := by
  rw [dropOne]
  split
  next hhead =>
    cases text with
    | nil => simp at h
    | cons a text =>
      rw [Option.some.inj hhead] at h
      exact (List.mem_cons.mp h).resolve_left hne
  next => exact h

theorem qualifierHere_tilde {before : Option Char} (h : '~' ∈ text) : qualifierHere py before text = false := by
  have hwords : ∀ word ∈ qualifierWords, '~' ∉ word := by decide
  have hinner := mem_dropOne (c := '(') (by decide) (@Trim.mem_dropWhile _ isSpace _ _ (by decide) h)
  rw [qualifierHere]
  refine decide_eq_false ?_
  rintro ⟨-, hword, hend⟩
  rw [← List.takeWhile_append_dropWhile (p := py.isWord) (l := dropOne '(' (text.dropWhile isSpace)),
    List.mem_append] at hinner
  rcases hinner with hrun | hbehind
  · exact hwords _ hword (List.mem_map.mpr ⟨'~', hrun, by decide⟩)
  · have hlast := mem_dropOne (c := ')') (by decide) (mem_dropOne (c := '.') (by decide) hbehind)
    exact absurd (List.all_eq_true.mp hend _ hlast) (by decide)

def KeepsRange (front text : Text) : Prop := ∃ back, text = front ++ '~' :: back

theorem trim_keepsRange {front : Text} (hhead : ∀ c ∈ front.head?, isSpace c = false) (hne : front ≠ [])
    (h : KeepsRange front text) : KeepsRange front (trim isSpace text) := by
  obtain ⟨back, rfl⟩ := h
  have hstart : (front ++ '~' :: back).dropWhile isSpace = front ++ '~' :: back := by
    refine Trim.dropWhile_of_head ?_
    rw [List.head?_append_of_ne_nil _ hne]
    exact hhead
  refine ⟨(back.reverse.dropWhile isSpace).reverse, ?_⟩
  rw [trim, hstart, List.reverse_append, List.reverse_cons, List.append_assoc, List.dropWhile_append]
  split
  next hnil =>
    have hback : back.reverse.dropWhile isSpace = [] := by simpa using hnil
    rw [hback, List.singleton_append, List.dropWhile_cons_of_neg (by decide)]
    simp
  next => simp

theorem dropQualifier_keepsRange {front : Text} (before : Option Char) (h : KeepsRange front text) :
    KeepsRange front (dropQualifier py before text) := by
  obtain ⟨back, rfl⟩ := h
  have htilde : qualifierHere py (front.getLast?.or before) ('~' :: back) = false := qualifierHere_tilde (by simp)
  rw [dropQualifier_append before fun b rest _ _ => qualifierHere_tilde (by simp), dropQualifier, htilde,
    if_neg Bool.false_ne_true]
  exact ⟨_, rfl⟩

theorem stripQualifiers_keepsRange {front : Text} (hhead : ∀ c ∈ front.head?, isSpace c = false) (hne : front ≠ [])
    (turns : ℕ) (h : KeepsRange front text) : KeepsRange front (stripQualifiers py turns text) := by
  induction turns generalizing text with
  | zero => exact h
  | succ turns ih =>
    rw [stripQualifiers]
    split
    · exact h
    · exact ih (trim_keepsRange hhead hne (dropQualifier_keepsRange none h))

theorem lowerChar_tilde : lowerChar '~' = '~' := by decide

theorem find_tilde (h : '~' ∈ text) : findExactUnit text = none ∧ findUnit text = none := by
  have hkeys : ∀ key ∈ Dict.keys units ++ Dict.keys exactUnits, '~' ∉ key := by decide
  refine ⟨Dict.find_eq_none.mpr fun hmem => hkeys _ (List.mem_append_right _ hmem) h, ?_⟩
  exact Dict.find_eq_none.mpr fun hmem =>
    hkeys _ (List.mem_append_left _ hmem) (List.mem_map.mpr ⟨'~', h, lowerChar_tilde⟩)

theorem resolveUnit_tilde (h : '~' ∈ text) (unitHint : Option Text) : resolveUnit text unitHint = none := by
  have htoken : '~' ∈ text.filter (· ≠ ' ') := List.mem_filter.mpr ⟨h, by decide⟩
  rw [resolveUnit]
  dsimp only
  split
  next heq =>
    rw [heq] at htoken
    simp at htoken
  next first tail heq =>
    rw [heq] at htoken ⊢
    have hlone : ¬ (tail = [] ∧ (Dict.find first prefixExponents).isSome = true) := by
      rintro ⟨rfl, hsome⟩
      rw [← List.mem_singleton.mp htoken] at hsome
      exact absurd hsome (by decide)
    rw [if_neg fun hcond => hlone ⟨hcond.1, hcond.2.1⟩, if_neg fun hcond => hlone ⟨hcond.1, hcond.2.1⟩,
      (find_tilde htoken).1, (find_tilde htoken).2]
    split
    next heq => exact absurd heq (by simp)
    next =>
      split
      next => rfl
      next =>
        rcases List.mem_cons.mp htoken with hfirst | htail
        · rw [← hfirst, show Dict.find '~' prefixExponents = none by decide]
          rfl
        · rw [(find_tilde htail).1, (find_tilde htail).2]
          cases Dict.find first prefixExponents <;> rfl

theorem parseScalar_range {negative : Bool} {n : ℕ} {e : ℤ} {entry : UnitEntry} (hentry : entry ∈ unitEntries)
    (hjoined : Joined text) (h : KeepsRange (displayText negative n e entry ++ [' ']) text)
    (unitHint : Option Text) : parseScalar py text unitHint = none := by
  have hdisplay := @display_displayText negative n e entry hentry
  have hne : displayText negative n e entry ++ [' '] ≠ [] := by simp
  have hhead : ∀ c ∈ (displayText negative n e entry ++ [' ']).head?, isSpace c = false := by
    rw [List.head?_append_of_ne_nil _ hdisplay.ne_nil]
    exact hdisplay.joined.trimmed.1
  have hkeeps : KeepsRange (displayText negative n e entry ++ [' ']) (headOf py text) := by
    rw [headOf_joined hjoined]
    exact stripQualifiers_keepsRange hhead hne _ h
  obtain ⟨back, hback⟩ := hkeeps
  have htoken : gap entry.space ++ shownToken e entry ≠ [] := by simp [shownToken, token_ne_nil hentry]
  have hrest : EndsNumber py ((gap entry.space ++ shownToken e entry) ++ ([' '] ++ '~' :: back)) := fun c hc => by
    rw [List.head?_append_of_ne_nil _ htoken] at hc
    exact endsNumber_token hentry c hc
  rw [parseScalar, hback, displayText_eq hentry, ← shownToken, List.append_assoc, List.append_assoc,
    readNumber_shownNumber hrest]
  rw [if_neg (by simp [shownNumber_ne_nil]), Option.bind_some, Option.bind_some, resolveUnit_tilde]
  · rfl
  · refine Trim.mem_trim_of_not_blank (by decide) ?_
    simp

def showEnds (ends : List (ℚ × Text)) : Text := rangeText (ends.map fun e => formatSi e.1 e.2)

section Ends

variable (py)

/-- The number of a text that is no range -/
def scalarEnd (body : Text) (unitHint : Option Text) : List (ℚ × Text) :=
  ((parseScalar py body unitHint).bind fun p => p.valueNum.map fun v => (v, p.unit)).toList

/-- The numbers a text is read as, with their units -/
def readEnds : ℕ → Text → Option Text → List (ℚ × Text)
  | 0, _, _ => []
  | depth + 1, text, unitHint =>
    match bodyOf py text with
    | none => []
    | some body =>
      match rangeParts py body with
      | none => scalarEnd py body unitHint
      | some parts =>
        if readEnds depth parts.1 unitHint = [] ∨ readEnds depth parts.2 unitHint = [] then
          scalarEnd py body unitHint
        else readEnds depth parts.1 unitHint ++ readEnds depth parts.2 unitHint

end Ends

def assemble (ends : List (ℚ × Text)) : Option Parsed :=
  ends.head?.map fun e => ⟨if ends.length = 1 then some e.1 else none, e.2, showEnds ends⟩

def ReadEnd (e : ℚ × Text) : Prop := Stored e.1 ∧ e.2 ∈ unitEntries.map UnitEntry.symbol

theorem symbol_ne_nil : ∀ unit ∈ unitEntries.map UnitEntry.symbol, unit ≠ [] := by decide

theorem resolveUnit_mem {rest unit : Text} {e : ℤ} (hhint : hint ∈ unitEntries.map UnitEntry.symbol)
    (h : resolveUnit rest (some hint) = some (unit, e)) : unit ∈ unitEntries.map UnitEntry.symbol := by
  have hfound {token : Text} {entry : UnitEntry} (hentry : (findExactUnit token).or (findUnit token) = some entry) :
      entry.symbol ∈ unitEntries.map UnitEntry.symbol := by
    refine List.mem_map_of_mem ?_
    rw [unitEntries, List.map_append, List.mem_append]
    rcases Option.or_eq_some_iff.mp hentry with hexact | ⟨-, hunit⟩
    · exact .inr (List.mem_map_of_mem (f := Prod.snd) (Dict.mem_of_find hexact))
    · exact .inl (List.mem_map_of_mem (f := Prod.snd) (Dict.mem_of_find hunit))
  rw [resolveUnit] at h
  dsimp only at h
  split at h
  next =>
    rw [if_neg (by simpa using symbol_ne_nil hint hhint)] at h
    rw [← (Prod.mk.inj (Option.some.inj h)).1]
    exact hhint
  next first tail _ =>
    split at h
    next =>
      split at h
      next =>
        obtain ⟨e', -, heq⟩ := Option.map_eq_some_iff.mp h
        rw [← (Prod.mk.inj heq).1]
        exact hhint
      next => exact absurd h (by simp)
    next =>
      split at h
      next => exact absurd h (by simp)
      next =>
        split at h
        next entry hentry =>
          rw [← (Prod.mk.inj (Option.some.inj h)).1]
          exact hfound hentry
        next =>
          split at h
          next => exact absurd h (by simp)
          next =>
            obtain ⟨e', -, hmap⟩ := Option.bind_eq_some_iff.mp h
            obtain ⟨entry, hentry, heq⟩ := Option.map_eq_some_iff.mp hmap
            rw [← (Prod.mk.inj heq).1]
            exact hfound hentry

theorem parseScalar_spec {body : Text} {p : Parsed} (hhint : hint ∈ unitEntries.map UnitEntry.symbol)
    (h : parseScalar py body (some hint) = some p) :
    ∃ v, p = ⟨some v, p.unit, formatSi v p.unit⟩ ∧ ReadEnd (v, p.unit) := by
  rw [parseScalar] at h
  split at h
  next => exact absurd h (by simp)
  next =>
    obtain ⟨read, -, h⟩ := Option.bind_eq_some_iff.mp h
    obtain ⟨number, -, h⟩ := Option.bind_eq_some_iff.mp h
    obtain ⟨resolved, hresolved, h⟩ := Option.bind_eq_some_iff.mp h
    obtain ⟨v, hv, heq⟩ := Option.map_eq_some_iff.mp h
    rw [← heq]
    exact ⟨v, rfl, stored_of_fit hv, resolveUnit_mem hhint hresolved⟩

theorem scalarEnd_spec (body : Text) (hhint : hint ∈ unitEntries.map UnitEntry.symbol) :
    parseScalar py body (some hint) = assemble (scalarEnd py body (some hint)) ∧
      ∀ e ∈ scalarEnd py body (some hint), ReadEnd e := by
  rw [scalarEnd]
  cases h : parseScalar py body (some hint) with
  | none => exact ⟨rfl, fun e he => absurd he (by simp)⟩
  | some p =>
    obtain ⟨v, hp, hread⟩ := parseScalar_spec hhint h
    rw [hp]
    refine ⟨?_, fun e he => ?_⟩
    · simp [assemble, showEnds, rangeText]
    · rw [List.mem_singleton.mp he]
      exact hread

theorem showEnds_append {low high : List (ℚ × Text)} (hlow : low ≠ []) (hhigh : high ≠ []) :
    showEnds (low ++ high) = showEnds low ++ ([' ', '~', ' '] ++ showEnds high) := by
  rw [showEnds, List.map_append, rangeText, Scan.intercalate_append (by simpa using hlow) (by simpa using hhigh)]
  rfl

theorem joinRange_assemble {low high : List (ℚ × Text)} (hlow : low ≠ []) (hhigh : high ≠ [])
    (hall : ∀ e ∈ low, ReadEnd e) :
    ((assemble low).bind fun l => (assemble high).map fun h => joinRange l h) = assemble (low ++ high) := by
  have hlength : (low ++ high).length ≠ 1 := by
    have hlow' := List.length_pos_iff.mpr hlow
    have hhigh' := List.length_pos_iff.mpr hhigh
    rw [List.length_append]
    omega
  have hshow := showEnds_append hlow hhigh
  cases low with
  | nil => exact absurd rfl hlow
  | cons a low =>
    cases high with
    | nil => exact absurd rfl hhigh
    | cons b high =>
      have hunit : a.2 ≠ [] := symbol_ne_nil a.2 (hall a List.mem_cons_self).2
      simp only [assemble, List.cons_append, List.head?_cons, Option.map_some, Option.bind_some, joinRange]
      rw [List.cons_append] at hlength hshow
      rw [if_neg hunit, if_neg hlength, hshow, List.append_assoc]

theorem parseWith_eq (hhint : hint ∈ unitEntries.map UnitEntry.symbol) (depth : ℕ) (text : Text) :
    parseWith py depth text (some hint) = assemble (readEnds py depth text (some hint)) ∧
      ∀ e ∈ readEnds py depth text (some hint), ReadEnd e := by
  induction depth generalizing text with
  | zero => exact ⟨rfl, fun e he => absurd he (by simp [readEnds])⟩
  | succ depth ih =>
    rw [parseWith, readEnds]
    cases bodyOf py text with
    | none => exact ⟨rfl, fun e he => absurd he (by simp)⟩
    | some body =>
      rw [Option.bind_some]
      dsimp only
      cases rangeParts py body with
      | none =>
        rw [Option.bind_none, Option.none_or]
        exact scalarEnd_spec body hhint
      | some parts =>
        obtain ⟨hlow, hlowall⟩ := ih parts.1
        obtain ⟨hhigh, hhighall⟩ := ih parts.2
        rw [Option.bind_some, hlow, hhigh]
        dsimp only
        split
        next hnil =>
          have hnone : ((assemble (readEnds py depth parts.1 (some hint))).bind fun l =>
              (assemble (readEnds py depth parts.2 (some hint))).map fun h => joinRange l h) = none := by
            rcases hnil with hnil | hnil
            · rw [hnil]
              rfl
            · rw [hnil]
              cases assemble (readEnds py depth parts.1 (some hint)) <;> rfl
          rw [hnone, Option.none_or]
          exact scalarEnd_spec body hhint
        next hnot =>
          obtain ⟨hne, hne'⟩ := not_or.mp hnot
          rw [joinRange_assemble hne hne' hlowall]
          refine ⟨?_, fun e he => (List.mem_append.mp he).elim (hlowall e) (hhighall e)⟩
          cases hends : assemble (readEnds py depth parts.1 (some hint) ++ readEnds py depth parts.2 (some hint)) with
          | none => simp [assemble, hne] at hends
          | some p => rfl

section Reread

variable {ends : List (ℚ × Text)}

/-- The display of what was read stays: it is no range, or it cannot be read, or every number is kept. -/
def Settled (hint : Text) (ends : List (ℚ × Text)) : Prop :=
  3 ≤ ends.length ∨ (∃ e ∈ ends, IsLost hint e.1 e.2) ∨ ∀ e ∈ ends, ¬ IsMoved hint e.1 e.2

theorem display_ends (hall : ∀ e ∈ ends, ReadEnd e) : ∀ piece ∈ ends.map fun e => formatSi e.1 e.2, Display piece := by
  intro piece hpiece
  obtain ⟨e, he, rfl⟩ := List.mem_map.mp hpiece
  exact display_formatSi (hall e he).2 e.1

theorem joined_showEnds (hne : ends ≠ []) (hall : ∀ e ∈ ends, ReadEnd e) : Joined (showEnds ends) :=
  joined_rangeText (by simpa using hne) (display_ends hall)

theorem parseScalar_showEnds (hall : ∀ e ∈ ends, ReadEnd e) (hmany : 2 ≤ ends.length) (unitHint : Option Text) :
    parseScalar py (showEnds ends) unitHint = none := by
  cases ends with
  | nil => simp at hmany
  | cons a ends =>
    have hne : ends ≠ [] := fun h => by simp [h] at hmany
    have hjoined := joined_showEnds (List.cons_ne_nil a ends) hall
    have hentry := (unitBySymbol_spec a.2 (hall a List.mem_cons_self).2).1
    refine @parseScalar_range py _ (a.1 < 0) (shownOf a.1 (isScalable a.2)).1 (shownOf a.1 (isScalable a.2)).2 _
      hentry hjoined ?_ unitHint
    refine ⟨' ' :: showEnds ends, ?_⟩
    rw [showEnds, List.map_cons, rangeText, Scan.intercalate_cons (by simpa using hne), formatSi_eq, List.append_assoc]
    rfl

theorem parseWith_many (hall : ∀ e ∈ ends, ReadEnd e) (hmany : 3 ≤ ends.length) (depth : ℕ) (unitHint : Option Text) :
    parseWith py depth (showEnds ends) unitHint = none := by
  have hne : ends ≠ [] := fun h => by simp [h] at hmany
  have hparts : rangeParts py (showEnds ends) = none := rangeParts_many (display_ends hall) (by simpa using hmany)
  cases depth with
  | zero => rfl
  | succ depth =>
    rw [parseWith, bodyOf_eq (joined_showEnds hne hall)]
    split
    · rfl
    · rw [Option.bind_some, hparts, parseScalar_showEnds hall (by omega)]
      rfl

theorem length_formatSi {e : ℚ × Text} (h : ReadEnd e) : (formatSi e.1 e.2).length ≤ 60 := by
  rw [formatSi_eq]
  exact length_displayText (unitBySymbol_spec e.2 h.2).1 (shownOf_lt h.1.lt.le _)

theorem parseWith_two {a b : ℚ × Text} (ha : ReadEnd a) (hb : ReadEnd b) (depth : ℕ) :
    parseWith py (depth + 1) (showEnds [a, b]) (some hint) =
      (parseWith py depth (formatSi a.1 a.2) (some hint)).bind fun low =>
        (parseWith py depth (formatSi b.1 b.2) (some hint)).map fun high => joinRange low high := by
  have hall : ∀ e ∈ [a, b], ReadEnd e := by simp [ha, hb]
  have hparts : rangeParts py (showEnds [a, b]) = some (formatSi a.1 a.2, formatSi b.1 b.2) :=
    rangeParts_two (display_formatSi ha.2 a.1) (display_formatSi hb.2 b.1)
  have hlength : (showEnds [a, b]).length ≤ maxInputChars := by
    have hlow := length_formatSi ha
    have hhigh := length_formatSi hb
    have hmax : maxInputChars = 200 := rfl
    rw [showEnds, List.map_cons, rangeText, Scan.intercalate_cons (by simp), List.map_singleton,
      Scan.intercalate_singleton, List.length_append, List.length_append, hmax, List.length_cons, List.length_cons,
      List.length_singleton]
    omega
  rw [parseWith, bodyOf_joined (joined_showEnds (by simp) hall) hlength, Option.bind_some,
    parseScalar_showEnds hall (by simp), Option.or_none, hparts, Option.bind_some]

theorem rangeText_inj (py : ValueTables) {a b c d : Text} (ha : Display a) (hb : Display b) (hc : Display c)
    (hd : Display d) (h : rangeText [a, b] = rangeText [c, d]) : a = c ∧ b = d := by
  have hleft := @rangeParts_two py a b ha hb
  rw [h, rangeParts_two hc hd] at hleft
  have hpair := Prod.mk.inj (Option.some.inj hleft)
  exact ⟨hpair.1.symm, hpair.2.symm⟩

/-- The display of what was read stays exactly when its ends are settled. -/
theorem reread_iff (hhint : hint ∈ unitEntries.map UnitEntry.symbol) (hne : ends ≠ [])
    (hall : ∀ e ∈ ends, ReadEnd e) (hfirst : ∀ e ∈ ends.head?, e.2 = hint) :
    (∀ p, parseText py (showEnds ends) (some hint) = some p → p.unit = hint → p.display = showEnds ends) ↔
      Settled hint ends := by
  rw [parseText, Settled]
  rcases ends with _ | ⟨a, _ | ⟨b, _ | ⟨c, ends⟩⟩⟩
  · exact absurd rfl hne
  · -- one number
    have ha := hall a List.mem_cons_self
    have hunit : a.2 = hint := hfirst a rfl
    have hshow : showEnds [a] = formatSi a.1 a.2 := by
      rw [showEnds, List.map_singleton, rangeText, Scan.intercalate_singleton]
    obtain ⟨hlost, hkept⟩ := @outcome_formatSi py a.1 a.2 hint ha.2 hhint ha.1 (formatSi a.1 a.2).length
    rw [hshow]
    by_cases h : IsLost hint a.1 a.2
    · rw [hlost h]
      exact iff_of_true (fun p hp => absurd hp (by simp)) (.inr (.inl ⟨a, by simp, h⟩))
    · obtain ⟨p, hp, hpunit, -, hsame⟩ := hkept h
      have hiff : 3 ≤ [a].length ∨ (∃ e ∈ [a], IsLost hint e.1 e.2) ∨ (∀ e ∈ [a], ¬ IsMoved hint e.1 e.2) ↔
          ¬ IsMoved hint a.1 a.2 := by simp [h]
      rw [hiff, hp, ← hsame]
      exact ⟨fun hstays => hstays p rfl (hpunit hunit), fun heq q hq _ => by rwa [← Option.some.inj hq]⟩
  · -- a range
    have ha := hall a List.mem_cons_self
    have hb := hall b (by simp)
    have hunit : a.2 = hint := hfirst a rfl
    have hpos : ∃ depth, (showEnds [a, b]).length = depth + 1 :=
      Nat.exists_eq_add_one_of_ne_zero fun h => absurd (List.length_eq_zero_iff.mp h)
        (fun hnil => by obtain ⟨c, hc, -⟩ := (joined_showEnds hne hall).digit; simp [hnil] at hc)
    obtain ⟨depth, hdepth⟩ := hpos
    obtain ⟨hlosta, hkepta⟩ := @outcome_formatSi py a.1 a.2 hint ha.2 hhint ha.1 depth
    obtain ⟨hlostb, hkeptb⟩ := @outcome_formatSi py b.1 b.2 hint hb.2 hhint hb.1 depth
    rw [hdepth, parseWith_two ha hb]
    by_cases hla : IsLost hint a.1 a.2
    · rw [hlosta hla]
      exact iff_of_true (fun p hp => absurd hp (by simp)) (.inr (.inl ⟨a, by simp, hla⟩))
    by_cases hlb : IsLost hint b.1 b.2
    · rw [hlostb hlb]
      refine iff_of_true (fun p hp => absurd hp ?_) (.inr (.inl ⟨b, by simp, hlb⟩))
      cases parseWith py (depth + 1) (formatSi a.1 a.2) (some hint) <;> simp
    obtain ⟨low, hlow, hlowunit, hlowdisplay, hlowsame⟩ := hkepta hla
    obtain ⟨high, hhigh, -, hhighdisplay, hhighsame⟩ := hkeptb hlb
    have hiff : 3 ≤ [a, b].length ∨ (∃ e ∈ [a, b], IsLost hint e.1 e.2) ∨ (∀ e ∈ [a, b], ¬ IsMoved hint e.1 e.2) ↔
        low.display = formatSi a.1 a.2 ∧ high.display = formatSi b.1 b.2 := by
      rw [hlowsame, hhighsame]
      simp [hla, hlb]
    have hjoin : (joinRange low high).display = rangeText [low.display, high.display] := by
      rw [joinRange, rangeText, Scan.intercalate_cons (by simp), Scan.intercalate_singleton, List.append_assoc]
    have hshow : showEnds [a, b] = rangeText [formatSi a.1 a.2, formatSi b.1 b.2] := rfl
    have hjoinunit : (joinRange low high).unit = hint := by
      rw [joinRange, hlowunit hunit]
      exact if_neg (symbol_ne_nil hint hhint)
    rw [hiff, hlow, hhigh, Option.bind_some, Option.map_some]
    constructor
    · intro hstays
      have heq := hstays _ rfl hjoinunit
      rw [hjoin, hshow] at heq
      exact rangeText_inj py hlowdisplay hhighdisplay (display_formatSi ha.2 a.1) (display_formatSi hb.2 b.1) heq
    · rintro ⟨heqlow, heqhigh⟩ p hp -
      rw [← Option.some.inj hp, hjoin, hshow, heqlow, heqhigh]
  · -- more than two numbers
    have hmany : 3 ≤ (a :: b :: c :: ends).length := by simp
    rw [parseWith_many hall hmany]
    exact iff_of_true (fun p hp => absurd hp (by simp)) (.inl hmany)

end Reread

end StockManager.Specs
