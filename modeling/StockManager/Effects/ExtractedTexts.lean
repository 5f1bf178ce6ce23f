import StockManager.Effects.SpecDisplays

/-! # What an extractor makes of its own output -/

namespace StockManager.Specs

open Trim (trim)

variable {py : ValueTables} {text t : Text}

theorem metricGroups_of_no_parenthesis (h : '(' ∉ text) : metricGroups py text = [] := by
  induction text with
  | nil => rfl
  | cons c text ih =>
    rw [metricGroups, if_neg fun hcond => h (List.mem_cons.mpr (.inl hcond.1.symm))]
    exact ih fun hmem => h (List.mem_cons_of_mem c hmem)

theorem exists_decimal {content : Text} (h : hasMetric py content = true) : ∃ c ∈ content, isSpace c = false := by
  rw [hasMetric] at h
  cases hdrop : content.dropWhile fun c => decide ¬ py.isDecimal c = true with
  | nil =>
    rw [hdrop] at h
    simp at h
  | cons c rest =>
    have hmem : c ∈ content := (List.dropWhile_suffix _).subset (hdrop ▸ List.mem_cons_self)
    have hhead := @Trim.dropWhile_head _ (fun c => decide ¬ py.isDecimal c = true) content c (by rw [hdrop]; rfl)
    exact ⟨c, hmem, py.decimal_not_space c (by simpa using hhead)⟩

theorem metricGroups_spec : ∀ content ∈ metricGroups py text, '(' ∉ content ∧ ∃ c ∈ content, isSpace c = false := by
  induction text with
  | nil => simp [metricGroups]
  | cons c text ih =>
    rw [metricGroups]
    split
    next h =>
      refine List.forall_mem_cons.mpr ⟨⟨fun hmem => ?_, exists_decimal h.2.2⟩, ih⟩
      simpa [isParenthesis] using List.mem_takeWhile_imp hmem
    next => exact ih

theorem metricGroups_suffix {rest : Text} (h : metricGroups py text = []) (hrest : rest <:+ text) :
    metricGroups py rest = [] := by
  induction text with
  | nil => rwa [List.suffix_nil.mp hrest]
  | cons c text ih =>
    rcases List.suffix_cons_iff.mp hrest with rfl | hsuffix
    · exact h
    · refine ih ?_ hsuffix
      rw [metricGroups] at h
      split at h
      next => exact absurd h (by simp)
      next => exact h

theorem metricGroups_append {tail : Text} (h : metricGroups py (text ++ tail) = []) : metricGroups py text = [] := by
  induction text with
  | nil => rfl
  | cons c text ih =>
    rw [List.cons_append, metricGroups] at h
    split at h
    next => exact absurd h (by simp)
    next hnot =>
      rw [metricGroups, if_neg, ih h]
      rintro ⟨hopen, hclose, hmetric⟩
      -- the group ends before the tail begins
      set content := text.takeWhile fun d => decide ¬ isParenthesis d = true with hcontent
      have hsplit := List.takeWhile_append_dropWhile (p := fun d => decide ¬ isParenthesis d = true) (l := text)
      have hdrop : text.drop content.length = text.dropWhile fun d => decide ¬ isParenthesis d = true := by
        conv_lhs => rw [← hsplit]
        rw [← hcontent, List.drop_left]
      have hne : (text.dropWhile fun d => decide ¬ isParenthesis d = true) ≠ [] := fun hnil => by
        rw [hdrop, hnil] at hclose
        simp at hclose
      have hsame : (text ++ tail).takeWhile (fun d => decide ¬ isParenthesis d = true) = content := by
        conv_lhs => rw [← hsplit, List.append_assoc]
        refine Trim.takeWhile_append (fun d hd => by simpa using List.mem_takeWhile_imp hd) fun d hd => ?_
        rw [List.head?_append_of_ne_nil _ hne] at hd
        exact Trim.dropWhile_head text d hd
      refine hnot ⟨hopen, ?_, ?_⟩
      · rw [hsame, List.drop_append_of_le_length (List.takeWhile_prefix _).length_le,
          List.head?_append_of_ne_nil _ (by rw [hdrop]; exact hne)]
        exact hclose
      · rw [hsame]
        exact hmetric

/-- A text that `metric` leaves alone -/
structure Plain (py : ValueTables) (text : Text) : Prop where
  groups : metricGroups py text = []
  trimmed : Trim.Trimmed isSpace text
  ne_nil : text ≠ []

theorem Plain.metric (h : Plain py text) : metric py text = some text := by
  rw [Specs.metric, Trim.trim_of_trimmed h.trimmed, if_neg h.ne_nil, h.groups]
  rfl

theorem plain_of_metric (h : metric py text = some t) : Plain py t := by
  rw [metric] at h
  split at h
  next => exact absurd h (by simp)
  next hne =>
    have heq := Option.some.inj h
    cases hlast : (metricGroups py (trim isSpace text)).getLast? with
    | none =>
      rw [hlast] at heq
      rw [← heq]
      exact ⟨List.getLast?_eq_none_iff.mp hlast, Trim.trimmed_trim text, hne⟩
    | some content =>
      rw [hlast] at heq
      obtain ⟨hopen, c, hc, hspace⟩ := metricGroups_spec content (List.mem_of_mem_getLast? hlast)
      rw [← heq]
      refine ⟨metricGroups_of_no_parenthesis fun hmem => hopen (Trim.trim_subset content hmem),
        Trim.trimmed_trim content, ?_⟩
      exact List.ne_nil_of_mem (Trim.mem_trim_of_not_blank hspace hc)

theorem dimensionHere_extends : Scan.Extends dimensionHere := by
  intro before before' text tail h
  rw [dimensionHere] at h ⊢
  split at h
  next hcond =>
    obtain ⟨hspaces, hcross, hbehind⟩ := hcond
    have hrest : text.dropWhile isSpace ≠ [] := fun hnil => by simp [hnil] at hcross
    have hhead : ∀ c ∈ (text.dropWhile isSpace ++ tail).head?, isSpace c = false := fun c hc => by
      rw [List.head?_append_of_ne_nil _ hrest] at hc
      exact Trim.dropWhile_head text c hc
    have hblank : ∀ c ∈ text.takeWhile isSpace, isSpace c = true := fun c hc => List.mem_takeWhile_imp hc
    have htext : text ++ tail = text.takeWhile isSpace ++ (text.dropWhile isSpace ++ tail) := by
      rw [← List.append_assoc, List.takeWhile_append_dropWhile]
    rw [htext, Trim.takeWhile_append hblank hhead, Trim.dropWhile_append hblank hhead]
    rw [if_pos]
    · simp
    · refine ⟨hspaces, ?_, ?_⟩
      · rwa [List.head?_append_of_ne_nil _ hrest]
      · rw [List.tail_append_of_ne_nil hrest]
        cases hbehind' : (text.dropWhile isSpace).tail with
        | nil => simp [hbehind'] at hbehind
        | cons c behind =>
          rw [hbehind', List.takeWhile_cons] at hbehind
          rw [List.cons_append, List.takeWhile_cons]
          have hspace : isSpace c = true := by
            by_contra hnot
            simp [hnot] at hbehind
          simp [hspace]
  next => exact absurd rfl h

theorem dimensionParts_quiet (hquiet : Scan.Quiet dimensionHere text []) (htrimmed : Trim.Trimmed isSpace text)
    (hne : text ≠ []) : dimensionParts text = [text] := by
  rw [dimensionParts, Scan.split_quiet hquiet, List.map_singleton, Trim.trim_of_trimmed htrimmed]
  simp [hne]

theorem trim_infix (blank : Char → Bool) (text : Text) : ∃ front tail, text = front ++ (trim blank text ++ tail) := by
  have hleft := List.takeWhile_append_dropWhile (p := blank) (l := text)
  have hright := List.takeWhile_append_dropWhile (p := blank) (l := (text.dropWhile blank).reverse)
  refine ⟨text.takeWhile blank, ((text.dropWhile blank).reverse.takeWhile blank).reverse, ?_⟩
  rw [trim, ← List.reverse_append, hright, List.reverse_reverse, hleft]

theorem plain_part (h : Plain py text) {part : Text} (hpart : part ∈ dimensionParts text) :
    Plain py part ∧ dimensionParts part = [part] := by
  rw [dimensionParts, List.mem_filter] at hpart
  obtain ⟨hpart, hne⟩ := hpart
  obtain ⟨piece, hpiece, rfl⟩ := List.mem_map.mp hpart
  have hne' : trim isSpace piece ≠ [] := by simpa using hne
  have htrimmed := @Trim.trimmed_trim _ isSpace piece
  obtain ⟨front, tail, hwithin⟩ := trim_infix isSpace piece
  have hquiet : Scan.Quiet dimensionHere (trim isSpace piece) [] := by
    have hwhole := Scan.quiet_of_mem_splitFrom dimensionHere_extends hpiece
    rw [hwithin] at hwhole
    exact hwhole.of_infix dimensionHere_extends
  have hgroups : metricGroups py (trim isSpace piece) = [] := by
    obtain ⟨start, rest, htext⟩ := Scan.infix_of_mem_splitFrom hpiece
    have hsuffix : trim isSpace piece ++ (tail ++ rest) <:+ text := ⟨start ++ front, by
      conv_rhs => rw [← htext, hwithin]
      simp⟩
    exact metricGroups_append (metricGroups_suffix h.groups hsuffix)
  exact ⟨⟨hgroups, htrimmed, hne'⟩, dimensionParts_quiet hquiet htrimmed hne'⟩

theorem findAec_of_aecDigits {digits : Text} {c : Char} (h : aecDigits py (c :: text) = some digits) :
    findAec py none (c :: text) = some digits := by
  rw [findAec, if_neg (by simp), h]
  rfl

theorem aecDigits_spec {digits : Text} (h : aecDigits py text = some digits) :
    digits.length = 3 ∧ ∀ c ∈ digits, py.isDecimal c = true := by
  rw [aecDigits] at h
  obtain ⟨⟨-, -, hlength, hall, -⟩, heq⟩ := Option.ite_none_right_eq_some.mp h
  rw [← Option.some.inj heq]
  exact ⟨hlength, fun c hc => List.all_eq_true.mp hall c hc⟩

theorem findAec_spec {before : Option Char} {digits : Text} (h : findAec py before text = some digits) :
    digits.length = 3 ∧ ∀ c ∈ digits, py.isDecimal c = true := by
  induction text generalizing before with
  | nil => exact absurd h (by simp [findAec])
  | cons c text ih =>
    rw [findAec] at h
    rcases Option.or_eq_some_iff.mp h with hfirst | ⟨-, hrest⟩
    · split at hfirst
      next => exact absurd hfirst (by simp)
      next => exact aecDigits_spec hfirst
    · exact ih hrest

theorem aecQualification_idempotent (h : aecQualification py text = some t) : aecQualification py t = some t := by
  obtain ⟨digits, hdigits, rfl⟩ := Option.map_eq_some_iff.mp h
  obtain ⟨hlength, hall⟩ := findAec_spec hdigits
  obtain ⟨a, b, c, rfl⟩ := List.length_eq_three.mp hlength
  have hspace : isSpace a = false := py.decimal_not_space a (hall a (by simp))
  have hsame : aecDigits py (['A', 'E', 'C', '-', 'Q'] ++ [a, b, c]) = some [a, b, c] := by
    rw [aecDigits]
    simp only [List.cons_append, List.nil_append, List.drop_succ_cons, List.drop_zero, List.head?_cons,
      Option.any_some, List.tail_cons, List.take_succ_cons, List.take_zero]
    rw [if_pos]
    · simp [hspace]
    · simp [hspace, hall, foldCase]
  have hfind : findAec py none (['A', 'E', 'C', '-', 'Q'] ++ [a, b, c]) = some [a, b, c] :=
    findAec_of_aecDigits hsame
  rw [aecQualification, hfind]
  rfl

/-- An extractor reads its own output as that output. -/
theorem extractText_idempotent (name : Extractor) (h : extractText py name text = some t) :
    extractText py name t = some t := by
  cases name with
  | metric => exact (plain_of_metric h).metric
  | dimensionFirst =>
    obtain ⟨whole, hwhole, hfirst⟩ := Option.bind_eq_some_iff.mp h
    obtain ⟨hplain, hparts⟩ := plain_part (plain_of_metric hwhole) (List.mem_of_mem_head? hfirst)
    rw [extractText, dimensionFirst, hplain.metric, Option.bind_some, hparts]
    rfl
  | dimensionLast =>
    obtain ⟨whole, hwhole, hlast⟩ := Option.bind_eq_some_iff.mp h
    obtain ⟨hplain, hparts⟩ := plain_part (plain_of_metric hwhole) (List.mem_of_mem_getLast? hlast)
    rw [extractText, dimensionLast, hplain.metric, Option.bind_some, hparts]
    rfl
  | aecQualification => exact aecQualification_idempotent h

theorem extractText_joined {name : Extractor} (hname : name ≠ .aecQualification) (h : Joined text) :
    extractText py name text = some text := by
  have hchars : ∀ c ∈ '~' :: shownChars, c ≠ '(' ∧ foldCase c ≠ 'x' ∧ c ≠ '×' := by decide
  have hne : text ≠ [] := by
    obtain ⟨c, hc, -⟩ := h.digit
    exact List.ne_nil_of_mem hc
  have hplain : Plain py text :=
    ⟨metricGroups_of_no_parenthesis fun hmem => (hchars _ (h.chars _ hmem)).1 rfl, h.trimmed, hne⟩
  have hquiet : Scan.Quiet dimensionHere text [] := by
    rintro before rest - hrest
    rw [List.append_nil, dimensionHere, if_neg]
    · rfl
    · rintro ⟨-, hcross, -⟩
      cases hhead : (rest.dropWhile isSpace).head? with
      | none => simp [hhead] at hcross
      | some c =>
        have hmem := hrest.subset ((List.dropWhile_suffix isSpace).subset (List.mem_of_mem_head? hhead))
        obtain ⟨-, hx, htimes⟩ := hchars c (h.chars c hmem)
        simp [hhead, hx, htimes] at hcross
  have hparts := dimensionParts_quiet hquiet h.trimmed hne
  cases name with
  | metric => exact hplain.metric
  | dimensionFirst =>
    rw [extractText, dimensionFirst, hplain.metric, Option.bind_some, hparts]
    rfl
  | dimensionLast =>
    rw [extractText, dimensionLast, hplain.metric, Option.bind_some, hparts]
    rfl
  | aecQualification => exact absurd rfl hname

end StockManager.Specs
