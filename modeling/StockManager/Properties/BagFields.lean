import StockManager.Model.BagCodes
import StockManager.Properties.BagIdentity

/-! # What is printed on a bag is what is read

A label is a header, if there is one, and fields with separators between them. -/

namespace StockManager.Bags

variable {fields : List (DataIdentifier × List ℕ)} {c : ℕ} {di : DataIdentifier}
  {dis : List DataIdentifier}

/-! ### Splitting -/

abbrev Separator : Type := {s : List ℕ // s ∈ separators}

/-- No separator stands in the text. -/
def Clean (s : List ℕ) : Prop := ∀ separator ∈ separators, ¬separator <:+: s

def Bounded (tail : List ℕ) : Prop :=
  tail = [] ∨ ∃ (separator : Separator) (rest : List ℕ), tail = separator.1 ++ rest

theorem separator_ne_nil : ∀ s ∈ separators, s ≠ [] := by decide

theorem separator_of_head : ∀ s ∈ separators, ∀ s' ∈ separators, s'.head? = s.head? → s' = s := by
  decide

theorem head_apart : ∀ s ∈ separators, ∀ c ∈ s.tail, ∀ s' ∈ separators, s'.head? ≠ some c := by
  decide

theorem separatorAt_separator (separator : Separator) (rest : List ℕ) :
    separatorAt (separator.1 ++ rest) = some separator.1 := by
  obtain ⟨s, hs⟩ := separator
  have hfound : (separatorAt (s ++ rest)).isSome := by
    rw [separatorAt, List.find?_isSome]
    exact ⟨s, hs, List.isPrefixOf_iff_prefix.mpr (List.prefix_append s rest)⟩
  obtain ⟨s', hs'⟩ := Option.isSome_iff_exists.mp hfound
  have hfind := hs'
  rw [separatorAt] at hfind
  have hmatch := List.find?_some hfind
  have hprefix : s' <+: s ++ rest := List.isPrefixOf_iff_prefix.mp hmatch
  have hmem : s' ∈ separators := List.mem_of_find?_eq_some hfind
  have hhead : s'.head? = s.head? := by
    obtain ⟨more, hmore⟩ := hprefix
    have happend := congrArg List.head? hmore
    rwa [List.head?_append_of_ne_nil _ (separator_ne_nil s' hmem),
      List.head?_append_of_ne_nil _ (separator_ne_nil s hs)] at happend
  exact hs'.trans (congrArg some (separator_of_head s hs s' hmem hhead))

theorem separatorAt_clean {text tail : List ℕ} (hne : text ≠ []) (hclean : Clean text)
    (htail : Bounded tail) : separatorAt (text ++ tail) = none := by
  rw [separatorAt, List.find?_eq_none]
  intro s hs hmatch
  have hprefix : s <+: text ++ tail := List.isPrefixOf_iff_prefix.mp hmatch
  rcases Nat.le_total s.length text.length with hle | hle
  · exact hclean s hs (List.prefix_of_prefix_length_le hprefix (List.prefix_append _ _) hle).isInfix
  · obtain ⟨more, rfl⟩ :=
      List.prefix_of_prefix_length_le (List.prefix_append text tail) hprefix hle
    rw [List.prefix_append_right_inj] at hprefix
    cases more with
    | nil =>
      rw [List.append_nil] at hs
      exact hclean text hs List.infix_rfl
    | cons c more =>
      rcases htail with rfl | ⟨separator, rest, rfl⟩
      · exact absurd hprefix (by simp)
      · obtain ⟨after, hafter⟩ := hprefix
        have hhead : separator.1.head? = some c := by
          have happend := congrArg List.head? hafter
          rwa [List.head?_append_of_ne_nil _ (separator_ne_nil _ separator.2), eq_comm] at happend
        refine head_apart _ hs c ?_ _ separator.2 hhead
        rw [List.tail_append_of_ne_nil hne]
        simp

theorem splitFrom_skip (skipped rest : List ℕ) :
    splitFrom skipped.length (skipped ++ rest) = splitFrom 0 rest := by
  induction skipped with
  | nil => rfl
  | cons c skipped ih => exact ih

theorem splitFrom_separator (separator : Separator) (rest : List ℕ) :
    splitFrom 0 (separator.1 ++ rest) = [] :: splitFrom 0 rest := by
  have hmatch := separatorAt_separator separator rest
  cases hs : separator.1 with
  | nil => exact absurd hs (separator_ne_nil _ separator.2)
  | cons c more =>
    rw [hs, List.cons_append] at hmatch
    rw [List.cons_append, splitFrom, hmatch]
    exact congrArg _ (splitFrom_skip more rest)

theorem splitFrom_clean {text tail : List ℕ} (hclean : Clean text) (htail : Bounded tail) :
    splitFrom 0 (text ++ tail) = (splitFrom 0 tail).modifyHead (text ++ ·) := by
  induction text with
  | nil =>
    rw [List.nil_append]
    cases splitFrom 0 tail <;> rfl
  | cons c text ih =>
    have hnone := separatorAt_clean (List.cons_ne_nil c text) hclean htail
    rw [List.cons_append] at hnone
    rw [List.cons_append, splitFrom, hnone, ih fun s hs h => hclean s hs (List.infix_cons h)]
    cases splitFrom 0 tail <;> rfl

/-! ### Fields -/

/-- A field as it is printed: its value has no blank at an end, no separator and no control
picture. -/
structure Field where
  di : DataIdentifier
  value : List ℕ
  filled : value ≠ []
  trimmed : Trim.Trimmed isWhiteSpace value
  clean : Clean value
  plain : ∀ c ∈ value, c ∉ controlPictures.map Prod.fst

namespace Field

def text (f : Field) : List ℕ := f.di.code ++ f.value

def read (f : Field) : DataIdentifier × List ℕ := (f.di, f.value)

end Field

theorem code_ne_nil (di : DataIdentifier) : di.code ≠ [] := by cases di <;> decide

theorem code_unit (di : DataIdentifier) : ∀ c ∈ di.code, isUpperOrDigit c = true := by
  cases di <;> decide

theorem unit_plain (h : isUpperOrDigit c = true) : isWhiteSpace c = false ∧ c ≠ 0x5B ∧
    c ≠ 0x1D ∧ c ∉ controlPictures.map Prod.fst ∧ ∀ s ∈ separators, s.head? ≠ some c := by
  have hlt : c < 0x5B := by
    simp only [isUpperOrDigit, Bool.or_eq_true, Bool.and_eq_true, decide_eq_true_eq] at h
    omega
  have hall : ∀ c < 0x5B, isUpperOrDigit c = true → isWhiteSpace c = false ∧ c ≠ 0x5B ∧
      c ≠ 0x1D ∧ c ∉ controlPictures.map Prod.fst ∧ ∀ s ∈ separators, s.head? ≠ some c := by decide
  exact hall c hlt h

theorem code_prefixFree (di di' : DataIdentifier) (h : di.code <+: di'.code) : di = di' := by
  revert h
  cases di <;> cases di' <;> decide

theorem mem_diList (di : DataIdentifier) : di ∈ diList := by cases di <;> decide

theorem eq_of_code_prefix {di di' : DataIdentifier} {rest : List ℕ}
    (h : di'.code <+: di.code ++ rest) : di' = di := by
  rcases Nat.le_total di'.code.length di.code.length with hle | hle
  · exact code_prefixFree _ _ (List.prefix_of_prefix_length_le h (List.prefix_append _ _) hle)
  · have hcode := List.prefix_of_prefix_length_le (List.prefix_append di.code rest) h hle
    exact (code_prefixFree _ _ hcode).symm

theorem clean_text (f : Field) : Clean f.text := by
  rintro s hs ⟨front, back, hwhole⟩
  rw [List.append_assoc] at hwhole
  rcases List.append_eq_append_iff.mp hwhole with ⟨more, hcode, hrest⟩ | ⟨more, hfront, hrest⟩
  · cases more with
    | nil => exact f.clean s hs ⟨[], back, by simpa using hrest⟩
    | cons c more =>
      have hc : c ∈ f.di.code := by simp [hcode]
      refine (unit_plain (code_unit _ c hc)).2.2.2.2 s hs ?_
      have hhead := congrArg List.head? hrest
      rwa [List.head?_append_of_ne_nil _ (separator_ne_nil s hs), List.cons_append] at hhead
  · exact f.clean s hs ⟨more, back, by rw [hrest, List.append_assoc]⟩

theorem trimmed_text (f : Field) : Trim.Trimmed isWhiteSpace f.text :=
  (Trim.Trimmed.of_forall fun c hc => (unit_plain (code_unit _ c hc)).1).join f.trimmed
    (code_ne_nil _) f.filled []

theorem trim_text (f : Field) : trim f.text = f.text := Trim.trim_of_trimmed (trimmed_text f)

theorem findSome_of_only {α β : Type} {g : α → Option β} {l : List α} {a : α} {b : β} (ha : a ∈ l)
    (h : g a = some b) (honly : ∀ a' ∈ l, a' ≠ a → g a' = none) : l.findSome? g = some b := by
  induction l with
  | nil => exact absurd ha List.not_mem_nil
  | cons first rest ih =>
    rw [List.findSome?_cons]
    by_cases hfirst : first = a
    · rw [hfirst, h]
    · rw [honly first (List.mem_cons_self ..) hfirst]
      exact ih ((List.mem_cons.mp ha).resolve_left (Ne.symm hfirst))
        fun a' ha' => honly a' (List.mem_cons_of_mem _ ha')

theorem findDI_text (f : Field) : findDI f.text = some f.read := by
  rw [findDI, trim_text]
  refine findSome_of_only (mem_diList f.di) ?_ fun di _ hne => if_neg fun hprefix => hne ?_
  · have hprefix : f.di.code.isPrefixOf f.text = true :=
      List.isPrefixOf_iff_prefix.mpr (List.prefix_append _ _)
    rw [valueAfter, if_pos hprefix, Field.text, List.drop_left, trim,
      Trim.trim_of_trimmed f.trimmed]
    exact if_neg f.filled
  · exact eq_of_code_prefix (List.isPrefixOf_iff_prefix.mp hprefix)

/-! ### Labels -/

def separated (between : List Separator) : List ℕ := between.flatMap (·.1)

/-- The fields, each with the separators after it -/
def printed : List (Field × List Separator) → List ℕ
  | [] => []
  | (f, after) :: rest => f.text ++ (separated after ++ printed rest)

structure Label where
  /-- `[)>06`, with a record separator before the `06` or without one -/
  header : Option Bool
  lead : List Separator
  fields : List (Field × List Separator)
  apart : fields.IsChain fun f _ => f.2 ≠ []

namespace Label

def headerText (label : Label) : List ℕ :=
  match label.header with
  | none => []
  | some marked => headerMark ++ ((if marked then [0x1E] else []) ++ formatMark)

def text (label : Label) : List ℕ :=
  label.headerText ++ (separated label.lead ++ printed label.fields)

def reads (label : Label) : List (DataIdentifier × List ℕ) := label.fields.map (·.1.read)

end Label

def chunks (s : List ℕ) : List (List ℕ) := ((splitFrom 0 s).map trim).filter (· ≠ [])

theorem chunks_separated (between : List Separator) (rest : List ℕ) :
    chunks (separated between ++ rest) = chunks rest := by
  induction between with
  | nil => rfl
  | cons separator between ih =>
    have hone : chunks (separator.1 ++ (separated between ++ rest)) =
        chunks (separated between ++ rest) := by
      rw [chunks, splitFrom_separator]
      rfl
    rw [separated, List.flatMap_cons, List.append_assoc]
    exact hone.trans ih

theorem chunks_text (f : Field) {tail : List ℕ} (htail : Bounded tail) :
    chunks (f.text ++ tail) = f.text :: chunks tail := by
  obtain ⟨others, hothers⟩ : ∃ others, splitFrom 0 tail = [] :: others := by
    rcases htail with rfl | ⟨separator, rest, rfl⟩
    · exact ⟨[], rfl⟩
    · exact ⟨_, splitFrom_separator separator rest⟩
  have hne : f.text ≠ [] := fun h => code_ne_nil _ (List.append_eq_nil_iff.mp h).1
  rw [chunks, chunks, splitFrom_clean (clean_text f) htail, hothers, List.modifyHead_cons,
    List.append_nil, List.map_cons, List.map_cons, trim_text, List.filter_cons_of_pos (by simpa),
    List.filter_cons_of_neg (by decide)]

theorem chunks_printed {fields : List (Field × List Separator)}
    (h : fields.IsChain fun f _ => f.2 ≠ []) :
    chunks (printed fields) = fields.map (·.1.text) := by
  induction fields with
  | nil => rfl
  | cons field rest ih =>
    obtain ⟨f, after⟩ := field
    have hbounded : Bounded (separated after ++ printed rest) := by
      cases after with
      | cons separator after => exact .inr ⟨separator, _, List.append_assoc ..⟩
      | nil =>
        cases rest with
        | nil => exact .inl rfl
        | cons next rest => exact absurd rfl (List.isChain_cons_cons.mp h).1
    rw [printed, chunks_text f hbounded, chunks_separated, ih h.tail, List.map_cons]

/-! ### The header -/

theorem headerMark_isPrefixOf {s more : List ℕ} (h : s.head? ≠ some 0x5B) :
    ((headerMark ++ more).isPrefixOf s) = false := by
  cases s with
  | nil => rfl
  | cons c s =>
    have hc : c ≠ 0x5B := fun heq => h (congrArg some heq)
    simp [headerMark, ascii, List.isPrefixOf, Ne.symm hc]

theorem stripHeader_of_head {s : List ℕ} (h : s.head? ≠ some 0x5B) : stripHeader s = s := by
  have hmark := @headerMark_isPrefixOf s [] h
  rw [List.append_nil] at hmark
  have hmarked : replaceMarked s = s := by
    rw [replaceMarked, hmark]
    rfl
  rw [stripHeader, hmarked, headerMark_isPrefixOf h]
  rfl

theorem printed_head (fields : List (Field × List Separator)) :
    ∀ c ∈ (printed fields).head?, isUpperOrDigit c = true := by
  intro c hc
  cases fields with
  | nil => cases hc
  | cons field rest =>
    obtain ⟨f, after⟩ := field
    rw [printed, Field.text, List.append_assoc, List.head?_append_of_ne_nil _ (code_ne_nil _)] at hc
    exact code_unit _ c (List.mem_of_mem_head? hc)

theorem body_head (lead : List Separator) (fields : List (Field × List Separator)) :
    (separated lead ++ printed fields).head? ≠ some 0x5B := by
  intro hc
  cases lead with
  | nil => exact (unit_plain (printed_head fields _ hc)).2.1 rfl
  | cons separator lead =>
    have hhead : separator.1.head? = some 0x5B := by
      rwa [separated, List.flatMap_cons, List.append_assoc,
        List.head?_append_of_ne_nil _ (separator_ne_nil _ separator.2)] at hc
    have hall : ∀ s ∈ separators, s.head? ≠ some 0x5B := by decide
    exact hall _ separator.2 hhead

theorem dropMark_body (lead : List Separator) (fields : List (Field × List Separator)) :
    ∃ lead', dropMark 0x1D (separated lead ++ printed fields) =
      separated lead' ++ printed fields := by
  by_cases hhead : (separated lead ++ printed fields).head? = some 0x1D
  · cases lead with
    | nil => exact absurd rfl (unit_plain (printed_head fields _ hhead)).2.2.1
    | cons separator lead =>
      rw [separated, List.flatMap_cons, List.append_assoc] at hhead ⊢
      have hgs : separator.1 = [0x1D] := by
        rw [List.head?_append_of_ne_nil _ (separator_ne_nil _ separator.2)] at hhead
        exact separator_of_head [0x1D] (by decide) _ separator.2 hhead
      refine ⟨lead, ?_⟩
      rw [dropMark, if_pos hhead, hgs]
      rfl
  · exact ⟨lead, if_neg hhead⟩

theorem stripHeader_label (label : Label) :
    ∃ lead, stripHeader label.text = separated lead ++ printed label.fields := by
  unfold Label.text Label.headerText
  cases label.header with
  | none => exact ⟨label.lead, stripHeader_of_head (body_head _ _)⟩
  | some marked =>
    obtain ⟨lead, hlead⟩ := dropMark_body label.lead label.fields
    refine ⟨lead, ?_⟩
    have hmarked : ∀ body, replaceMarked (headerMark ++ ((if marked then [0x1E] else []) ++
        formatMark) ++ body) = dropMark 0x1D body := by
      cases marked <;> exact fun _ => rfl
    rw [stripHeader, hmarked, hlead, headerMark_isPrefixOf (body_head _ _)]
    rfl

/-! ### Reading -/

/-- A decoder may show control characters and spaces as their pictures and add blanks. -/
def Decodes (text raw : List ℕ) : Prop :=
  ∃ lead shown trail, raw = lead ++ (shown ++ trail) ∧ (∀ c ∈ lead, isWhiteSpace c = true) ∧
    (∀ c ∈ trail, isWhiteSpace c = true) ∧ Pictured text shown

theorem plain_of_notMem (h : c ∉ controlPictures.map Prod.fst) : plain c = c := by
  have hnone : controlPictures.find? (·.1 = c) = none := by
    rw [List.find?_eq_none]
    intro picture hmem heq
    exact h (List.mem_map.mpr ⟨picture, hmem, of_decide_eq_true heq⟩)
  rw [plain, hnone]
  rfl

theorem input_of_decodes {text raw : List ℕ} (h : Decodes text raw)
    (htrimmed : Trim.Trimmed isWhiteSpace text)
    (hplain : ∀ c ∈ text, c ∉ controlPictures.map Prod.fst) : inputOf raw = text := by
  obtain ⟨lead, shown, trail, rfl, hlead, htrail, hshown⟩ := h
  have hends : Trim.Trimmed isWhiteSpace shown := by
    rw [isWhiteSpace_eq] at htrimmed ⊢
    exact trimmed_pictured hshown htrimmed
  have hmap : text.map plain = text.map id :=
    List.map_congr_left fun c hc => plain_of_notMem (hplain c hc)
  rw [inputOf, trim, Trim.trim_parts hlead htrail hends, normalizeControlPictures_eq,
    map_plain_pictured hshown, hmap, List.map_id]

theorem trimmed_append {l l' : List ℕ} (h : Trim.Trimmed isWhiteSpace l)
    (h' : Trim.Trimmed isWhiteSpace l') : Trim.Trimmed isWhiteSpace (l ++ l') := by
  by_cases hl : l = []
  · rwa [hl]
  · by_cases hl' : l' = []
    · rwa [hl', List.append_nil]
    · exact h.join h' hl hl' []

theorem separated_units (between : List Separator) : ∀ c ∈ separated between,
    isWhiteSpace c = false ∧ c ∉ controlPictures.map Prod.fst := by
  intro c hc
  obtain ⟨separator, _, hmem⟩ := List.mem_flatMap.mp hc
  have hall : ∀ s ∈ separators, ∀ c ∈ s,
      isWhiteSpace c = false ∧ c ∉ controlPictures.map Prod.fst := by decide
  exact hall _ separator.2 c hmem

theorem headerText_units (label : Label) : ∀ c ∈ label.headerText,
    isWhiteSpace c = false ∧ c ∉ controlPictures.map Prod.fst := by
  unfold Label.headerText
  cases label.header with
  | none => exact fun c hc => absurd hc List.not_mem_nil
  | some marked => cases marked <;> decide

theorem text_units (f : Field) : ∀ c ∈ f.text, c ∉ controlPictures.map Prod.fst := by
  intro c hc
  rcases List.mem_append.mp hc with hcode | hvalue
  · exact (unit_plain (code_unit _ c hcode)).2.2.2.1
  · exact f.plain c hvalue

theorem printed_kept (fields : List (Field × List Separator)) :
    Trim.Trimmed isWhiteSpace (printed fields) ∧
      ∀ c ∈ printed fields, c ∉ controlPictures.map Prod.fst := by
  induction fields with
  | nil => exact ⟨.of_forall fun c hc => absurd hc List.not_mem_nil,
      fun c hc => absurd hc List.not_mem_nil⟩
  | cons field rest ih =>
    obtain ⟨f, after⟩ := field
    have hafter : Trim.Trimmed isWhiteSpace (separated after) :=
      .of_forall fun c hc => (separated_units after c hc).1
    refine ⟨trimmed_append (trimmed_text f) (trimmed_append hafter ih.1), fun c hc => ?_⟩
    rw [printed, List.mem_append, List.mem_append] at hc
    rcases hc with hc | hc | hc
    · exact text_units f c hc
    · exact (separated_units after c hc).2
    · exact ih.2 c hc

theorem input_of_label {label : Label} {raw : List ℕ} (h : Decodes label.text raw) :
    inputOf raw = label.text := by
  obtain ⟨htrimmed, hplain⟩ := printed_kept label.fields
  refine input_of_decodes h (trimmed_append ?_ (trimmed_append ?_ htrimmed)) fun c hc => ?_
  · exact .of_forall fun c hc => (headerText_units label c hc).1
  · exact .of_forall fun c hc => (separated_units label.lead c hc).1
  · rw [Label.text, List.mem_append, List.mem_append] at hc
    rcases hc with hc | hc | hc
    · exact (headerText_units label c hc).2
    · exact (separated_units label.lead c hc).2
    · exact hplain c hc

/-! ### The slots of a bag -/

def lastOf (di : DataIdentifier) (fields : List (DataIdentifier × List ℕ)) : Option (List ℕ) :=
  (fields.reverse.find? (·.1 = di)).map (·.2)

def firstOf (dis : List DataIdentifier) (fields : List (DataIdentifier × List ℕ)) :
    Option (List ℕ) := (fields.find? (·.1 ∈ dis)).map (·.2)

def quantityIn (f : DataIdentifier × List ℕ) : Option ℚ :=
  if f.1 = .diQ then quantityOf f.2 else none

/-- What the fields say: of several with one identifier the last counts, but the first of the two
that give the distributor's part number, and of the two that give the date code. -/
def bagOf (raw input : List ℕ) (fields : List (DataIdentifier × List ℕ)) : BagCode where
  mpn := (lastOf .di1P fields).getD input
  quantity := (fields.filterMap quantityIn).getLast?
  distributorPn := firstOf [.di30P, .diP] fields
  manufacturer := lastOf .di1V fields
  dateCode := firstOf [.di10D, .di9D] fields
  lotBatch := lastOf .di1T fields
  serial := lastOf .di1S fields
  customerRef := lastOf .diK fields
  poNumber := lastOf .di1K fields
  lineItem := lastOf .di14K fields
  invoiceRef := lastOf .di11K fields
  raw := raw

theorem slot_last {α : Type} {slot : BagCode → α} {g : List ℕ → α}
    (h : ∀ out f, slot (takeField out f) = if f.1 = di then g f.2 else slot out)
    (fields : List (DataIdentifier × List ℕ)) (out : BagCode) :
    slot (fields.foldl takeField out) = ((lastOf di fields).map g).getD (slot out) := by
  induction fields using List.reverseRecOn with
  | nil => rfl
  | append_singleton fields f ih =>
    rw [List.foldl_append, List.foldl_cons, List.foldl_nil, h, ih, lastOf, lastOf,
      List.reverse_append, List.reverse_singleton, List.singleton_append, List.find?_cons]
    by_cases hf : f.1 = di <;> simp [hf]

theorem slot_first {slot : BagCode → Option (List ℕ)}
    (h : ∀ out f, slot (takeField out f) = if f.1 ∈ dis then setOnce (slot out) f.2 else slot out)
    (hfilled : ∀ f ∈ fields, f.2 ≠ []) {out : BagCode}
    (hout : slot out = none) : slot (fields.foldl takeField out) = firstOf dis fields := by
  induction fields using List.reverseRecOn with
  | nil => exact hout
  | append_singleton fields f ih =>
    have hbefore := ih fun f hf => hfilled f (List.mem_append_left _ hf)
    rw [List.foldl_append, List.foldl_cons, List.foldl_nil, h, hbefore, firstOf, firstOf,
      List.find?_append]
    cases hfind : fields.find? (·.1 ∈ dis) with
    | none => by_cases hf : f.1 ∈ dis <;> simp [setOnce, hf]
    | some g =>
      have hg : g.2 ≠ [] := hfilled g (List.mem_append_left _ (List.mem_of_find?_eq_some hfind))
      simp [setOnce, hg]

theorem quantity_fold (fields : List (DataIdentifier × List ℕ)) (out : BagCode) :
    (fields.foldl takeField out).quantity =
      ((fields.filterMap quantityIn).getLast?).or out.quantity := by
  have hstep : ∀ out f, (takeField out f).quantity = (quantityIn f).or out.quantity := by
    rintro out ⟨di, value⟩
    cases di <;> rfl
  induction fields generalizing out with
  | nil => rfl
  | cons f fields ih =>
    rw [List.foldl_cons, ih, hstep, List.filterMap_cons]
    cases quantityIn f with
    | none => rfl
    | some n => cases hlast : (fields.filterMap quantityIn).getLast? <;>
        simp [List.getLast?_cons, hlast]

theorem foldl_takeField {raw : List ℕ} {fields : List (DataIdentifier × List ℕ)}
    (hfilled : ∀ f ∈ fields, f.2 ≠ []) :
    fields.foldl takeField { mpn := [], raw := raw } = bagOf raw [] fields := by
  have hlast : ∀ {slot : BagCode → Option (List ℕ)} {di : DataIdentifier},
      (∀ out f, slot (takeField out f) = if f.1 = di then some f.2 else slot out) →
      slot { mpn := [], raw := raw } = none →
      slot (fields.foldl takeField { mpn := [], raw := raw }) = lastOf di fields := by
    intro slot di h hnone
    rw [slot_last h, hnone]
    cases lastOf di fields <;> rfl
  have hmpn : (fields.foldl takeField { mpn := [], raw := raw }).mpn =
      ((lastOf .di1P fields).map id).getD [] :=
    slot_last (by rintro out ⟨di, value⟩; cases di <;> rfl) _ _
  have hraw : ∀ out, (fields.foldl takeField out).raw = out.raw := by
    clear hfilled hlast hmpn
    induction fields with
    | nil => exact fun _ => rfl
    | cons f fields ih =>
      obtain ⟨di, value⟩ := f
      refine fun out => (ih _).trans ?_
      cases di <;> rfl
  rw [Option.map_id] at hmpn
  refine BagCode.ext hmpn ?_ ?_ ?_ ?_ ?_ ?_ ?_ ?_ ?_ ?_ (hraw _)
  · rw [quantity_fold]
    exact Option.or_none
  · exact slot_first (by rintro out ⟨di, value⟩; cases di <;> rfl) hfilled rfl
  · exact hlast (by rintro out ⟨di, value⟩; cases di <;> rfl) rfl
  · exact slot_first (by rintro out ⟨di, value⟩; cases di <;> rfl) hfilled rfl
  all_goals exact hlast (by rintro out ⟨di, value⟩; cases di <;> rfl) rfl

theorem lastOf_mem :
    ∀ value ∈ lastOf di fields, ∃ f ∈ fields, f.2 = value := by
  intro value hvalue
  obtain ⟨f, hf, rfl⟩ := Option.map_eq_some_iff.mp hvalue
  exact ⟨f, List.mem_reverse.mp (List.mem_of_find?_eq_some hf), rfl⟩

theorem firstOf_mem :
    ∀ value ∈ firstOf dis fields, ∃ f ∈ fields, f.2 = value := by
  intro value hvalue
  obtain ⟨f, hf, rfl⟩ := Option.map_eq_some_iff.mp hvalue
  exact ⟨f, List.mem_of_find?_eq_some hf, rfl⟩

theorem bagOf_mpn (raw input : List ℕ) (fields : List (DataIdentifier × List ℕ)) :
    (bagOf raw input fields).mpn = input ∨ ∃ f ∈ fields, f.2 = (bagOf raw input fields).mpn := by
  cases hmpn : lastOf .di1P fields with
  | none => exact .inl (by rw [bagOf, hmpn, Option.getD_none])
  | some value =>
    obtain ⟨f, hf, rfl⟩ := lastOf_mem value hmpn
    exact .inr ⟨f, hf, by rw [bagOf, hmpn, Option.getD_some]⟩

/-! ### Every code -/

theorem trim_isInfix (s : List ℕ) : trim s <:+: s := by
  obtain ⟨lead, trail, hs, _⟩ := Trim.exists_parts isWhiteSpace s
  exact ⟨lead, trail, by rw [trim, List.append_assoc, ← hs]⟩

theorem findDI_some {field : List ℕ} {f : DataIdentifier × List ℕ} (h : findDI field = some f) :
    f.2 ≠ [] ∧ Trim.Trimmed isWhiteSpace f.2 ∧ f.2 <:+: field := by
  obtain ⟨di, _, hvalue⟩ := List.exists_of_findSome?_eq_some h
  rw [valueAfter] at hvalue
  split at hvalue
  next =>
    simp only at hvalue
    split at hvalue
    next => cases hvalue
    next hne =>
      obtain rfl := Option.some.inj hvalue
      refine ⟨hne, Trim.trimmed_trim _, (trim_isInfix _).trans ?_⟩
      exact (List.drop_suffix _ _).isInfix.trans (trim_isInfix field)
  next => cases hvalue

def fieldsIn (input : List ℕ) : List (DataIdentifier × List ℕ) :=
  (chunksOf (stripHeader input)).filterMap findDI

theorem fieldsIn_filled (input : List ℕ) : ∀ f ∈ fieldsIn input, f.2 ≠ [] := by
  intro f hf
  obtain ⟨chunk, _, hchunk⟩ := List.mem_filterMap.mp hf
  exact (findDI_some hchunk).1

theorem parseBagCode_eq (raw : List ℕ) :
    parseBagCode raw = bagOf raw (inputOf raw) (fieldsIn (inputOf raw)) := by
  have hfilled := fieldsIn_filled (inputOf raw)
  have hfold := @foldl_takeField raw _ hfilled
  rw [fieldsIn] at hfold hfilled
  rw [parseBagCode, fieldsIn]
  simp only [hfold]
  generalize inputOf raw = input at *
  split
  next hnil =>
    subst hnil
    rfl
  next =>
    split
    next hplain =>
      rw [hplain.1]
      rfl
    next =>
      cases hmpn : lastOf .di1P ((chunksOf (stripHeader input)).filterMap findDI) with
      | none => simp [bagOf, hmpn]
      | some value =>
        obtain ⟨f, hf, rfl⟩ := lastOf_mem value hmpn
        simp [bagOf, hmpn, hfilled f hf]

/-- A label of two fields or more is read as it is printed, whichever separators the code has and
however the decoder shows them. -/
theorem parseBagCode_label {label : Label} (htwo : 2 ≤ label.fields.length) {raw : List ℕ}
    (hraw : Decodes label.text raw) :
    parseBagCode raw = bagOf raw label.text label.reads := by
  obtain ⟨lead, hlead⟩ := stripHeader_label label
  have hlist : chunks (stripHeader label.text) = label.fields.map (·.1.text) := by
    rw [hlead, chunks_separated, chunks_printed label.apart]
  have hchunks : chunksOf (stripHeader label.text) = label.fields.map (·.1.text) := by
    rw [chunks] at hlist
    rw [chunksOf, hlist]
    refine if_neg ?_
    rw [List.length_map]
    omega
  have hcompose : findDI ∘ (fun field : Field × List Separator => field.1.text) =
      some ∘ fun field => field.1.read := funext fun field => findDI_text field.1
  have hread : fieldsIn label.text = label.reads := by
    rw [fieldsIn, hchunks, List.filterMap_map, hcompose, List.filterMap_eq_map]
    rfl
  rw [parseBagCode_eq, input_of_label hraw, hread]

def sampleField (di : DataIdentifier) (value : List ℕ) (h : value ≠ [] ∧
    (∀ c ∈ value, isUpperOrDigit c = true)) : Field where
  di := di
  value := value
  filled := h.1
  trimmed := .of_forall fun c hc => (unit_plain (h.2 c hc)).1
  clean s hs hwithin := by
    cases s with
    | nil => exact separator_ne_nil _ hs rfl
    | cons c s =>
      exact (unit_plain (h.2 c (hwithin.subset (List.mem_cons_self ..)))).2.2.2.2 _ hs rfl
  plain c hc := (unit_plain (h.2 c hc)).2.2.2.1

def sampleSeparator (code : ℕ) (h : [code] ∈ separators) : Separator := ⟨[code], h⟩

/-- `[)>` RS `06` GS `1PRC0402` GS `Q50` RS EOT -/
def sampleLabel : Label where
  header := some true
  lead := [sampleSeparator 0x1D (by decide)]
  fields := [(sampleField .di1P (ascii ['R', 'C', '0', '4', '0', '2']) (by decide),
      [sampleSeparator 0x1D (by decide)]),
    (sampleField .diQ (ascii ['5', '0']) (by decide),
      [sampleSeparator 0x1E (by decide), sampleSeparator 0x04 (by decide)])]
  apart := .cons_cons (List.cons_ne_nil _ _) (.singleton _)

/-- The group separators are shown as pictures, and the scanner ends the code with a line feed. -/
def sampleShown : List ℕ :=
  ascii ['[', ')', '>'] ++ [0x1E] ++ ascii ['0', '6'] ++ [0x241D] ++
    ascii ['1', 'P', 'R', 'C', '0', '4', '0', '2'] ++ [0x241D] ++ ascii ['Q', '5', '0'] ++
    [0x241E, 0x04]

theorem parseBagCode_label_sample : parseBagCode (sampleShown ++ [0x0A]) =
    bagOf (sampleShown ++ [0x0A]) sampleLabel.text
      [(.di1P, ascii ['R', 'C', '0', '4', '0', '2']), (.diQ, ascii ['5', '0'])] :=
  @parseBagCode_label sampleLabel (by decide) _
    ⟨[], sampleShown, [0x0A], rfl, by decide, by decide, by unfold Pictured; decide⟩

/-! ### What a bag can hold -/

theorem splitFrom_head (s : List ℕ) : ∀ piece ∈ (splitFrom 0 s).head?, piece <+: s := by
  induction s with
  | nil => exact fun piece h => Option.some.inj h ▸ List.prefix_rfl
  | cons c rest ih =>
    intro piece h
    rw [splitFrom] at h
    split at h
    next => exact Option.some.inj h ▸ List.nil_prefix
    next =>
      rw [List.head?_modifyHead] at h
      obtain ⟨first, hfirst, rfl⟩ := Option.map_eq_some_iff.mp h
      exact List.cons_prefix_cons.mpr ⟨rfl, ih first hfirst⟩

theorem infix_of_splitFrom {skip : ℕ} {s piece : List ℕ} (h : piece ∈ splitFrom skip s) :
    piece <:+: s := by
  induction s generalizing skip piece with
  | nil =>
    cases skip <;> exact List.mem_singleton.mp h ▸ List.infix_rfl
  | cons c rest ih =>
    cases skip with
    | succ skip => exact List.infix_cons (ih h)
    | zero =>
      have hhead := splitFrom_head (c :: rest)
      rw [splitFrom] at h hhead
      split at h
      next =>
        rcases List.mem_cons.mp h with rfl | hmem
        · exact List.nil_infix
        · exact List.infix_cons (ih hmem)
      next hnone =>
        simp only [hnone] at hhead
        cases hpieces : splitFrom 0 rest with
        | nil => simp [hpieces] at h
        | cons first others =>
          rw [hpieces, List.modifyHead_cons] at h hhead
          rcases List.mem_cons.mp h with rfl | hmem
          · exact (hhead _ rfl).isInfix
          · exact List.infix_cons (ih (hpieces ▸ List.mem_cons_of_mem _ hmem))

theorem infix_of_chunksOf {s chunk : List ℕ} (h : chunk ∈ chunksOf s) : chunk <:+: s := by
  rw [chunksOf] at h
  split at h
  next =>
    rw [inlineSplit] at h
    split at h
    next => exact List.mem_singleton.mp h ▸ List.infix_rfl
    next =>
      obtain ⟨ab, _, rfl⟩ := List.mem_map.mp (List.mem_of_mem_filter h)
      refine (trim_isInfix _).trans ((List.drop_suffix _ _).isInfix.trans ?_)
      exact (List.take_prefix _ _).isInfix
  next =>
    obtain ⟨piece, hpiece, rfl⟩ := List.mem_map.mp (List.mem_of_mem_filter h)
    exact (trim_isInfix piece).trans (infix_of_splitFrom hpiece)

theorem stripHeader_isSuffix (s : List ℕ) : stripHeader s <:+ s := by
  have hmark : ∀ mark s, dropMark mark s <:+ s := by
    intro mark s
    rw [dropMark]
    split
    · exact List.tail_suffix s
    · exact List.suffix_rfl
  have hmarked : replaceMarked s <:+ s := by
    rw [replaceMarked]
    split
    · simp only
      split
      · exact (hmark _ _).trans ((List.drop_suffix _ _).trans
          ((hmark _ _).trans (List.drop_suffix _ _)))
      · exact List.suffix_rfl
    · exact List.suffix_rfl
  rw [stripHeader]
  split
  · exact (List.drop_suffix _ _).trans hmarked
  · exact hmarked

theorem fieldsIn_found {input : List ℕ} : ∀ f ∈ fieldsIn input,
    f.2 ≠ [] ∧ Trim.Trimmed isWhiteSpace f.2 ∧ f.2 <:+: input := by
  intro f hf
  obtain ⟨chunk, hmem, hchunk⟩ := List.mem_filterMap.mp hf
  obtain ⟨hne, htrimmed, hwithin⟩ := findDI_some hchunk
  exact ⟨hne, htrimmed,
    hwithin.trans ((infix_of_chunksOf hmem).trans (stripHeader_isSuffix input).isInfix)⟩

/-- The texts of a bag beside its part number -/
def BagCode.texts (b : BagCode) : List (List ℕ) :=
  [b.distributorPn, b.manufacturer, b.dateCode, b.lotBatch, b.serial, b.customerRef, b.poNumber,
    b.lineItem, b.invoiceRef].reduceOption

theorem quantityOf_pos {value : List ℕ} : ∀ n ∈ quantityOf value, 0 < n := by
  intro n hn
  unfold quantityOf at hn
  split at hn
  next m _ =>
    split at hn
    next hpos => exact Option.some.inj hn ▸ hpos
    next => cases hn
  next => cases hn

/-- Whatever is scanned, what the parser returns stands in the code: each text is there and has no
blank at an end, only an empty code has no part number, and a quantity is positive. -/
theorem parseBagCode_found (raw : List ℕ) : (parseBagCode raw).mpn <:+: inputOf raw ∧
    ((parseBagCode raw).mpn = [] ↔ inputOf raw = []) ∧
      (∀ n ∈ (parseBagCode raw).quantity, 0 < n) ∧ ∀ text ∈ (parseBagCode raw).texts,
        text ≠ [] ∧ Trim.Trimmed isWhiteSpace text ∧ text <:+: inputOf raw := by
  rw [parseBagCode_eq]
  generalize inputOf raw = input
  have hfields := @fieldsIn_found input
  have hmpn := bagOf_mpn raw input (fieldsIn input)
  refine ⟨?_, ?_, fun n hn => ?_, fun text htext => ?_⟩
  · rcases hmpn with hmpn | ⟨f, hf, hmpn⟩
    · rw [hmpn]
    · rw [← hmpn]
      exact (hfields f hf).2.2
  · rcases hmpn with hmpn | ⟨f, hf, hmpn⟩
    · rw [hmpn]
    · rw [← hmpn]
      refine ⟨fun hnil => absurd hnil (hfields f hf).1, fun hnil => ?_⟩
      exact List.infix_nil.mp (hnil ▸ (hfields f hf).2.2)
  · obtain ⟨f, _, hf⟩ := List.mem_filterMap.mp (List.mem_of_getLast? hn)
    unfold quantityIn at hf
    split at hf
    · exact quantityOf_pos n hf
    · cases hf
  · have hslot : ∃ f ∈ fieldsIn input, f.2 = text := by
      rw [BagCode.texts, List.reduceOption_mem_iff] at htext
      simp only [List.mem_cons, List.not_mem_nil, or_false, bagOf] at htext
      rcases htext with h | h | h | h | h | h | h | h | h
      · exact firstOf_mem text h.symm
      · exact lastOf_mem text h.symm
      · exact firstOf_mem text h.symm
      all_goals exact lastOf_mem text h.symm
    obtain ⟨f, hf, rfl⟩ := hslot
    exact hfields f hf

end StockManager.Bags
