import StockManager.Model.Labels

/-! # The lines of a label -/

namespace StockManager.Labels

open PlainText

variable (py : Python)
variable {c : Char} {fields : List Text}

theorem plain_decimal (n : ℕ) : Plain (decimal n) := plain_toDigits 10 n

theorem plain_decimalInt (n : ℤ) : Plain (decimalInt n) := by
  cases n with
  | ofNat n => exact plain_decimal n
  | negSucc n => exact Plain.cons (by decide) (plain_decimal _)

theorem stripZeros_subset (digits : Text) : stripZeros digits ⊆ digits := by
  intro c hc
  have hmem := List.dropWhile_subset _ (List.mem_reverse.mp hc)
  exact List.mem_reverse.mp hmem

theorem plain_afterPoint {digits : Text} (h : Plain digits) : Plain (afterPoint digits) := by
  unfold afterPoint
  split
  · exact plain_nil
  · exact Plain.cons (by decide) (h.of_subset (stripZeros_subset digits))

theorem plain_sixDigits (num den : ℕ) : Plain (sixDigits num den).1 := by
  unfold sixDigits
  simp only
  split
  next => exact plain_decimal (10 ^ 5)
  next => exact plain_decimal (roundHalfEven _ _)

theorem plain_exponentText (exponent : ℤ) : Plain (exponentText exponent) := by
  have hzero : Plain (if exponent.natAbs < 10 then ['0'] else []) := by
    split
    · exact plain_of_all (by decide)
    · exact plain_nil
  refine Plain.cons ?_ (hzero.append (plain_decimal _))
  split
  · decide
  · decide

theorem plain_formatFinite (num den : ℕ) : Plain (formatFinite num den) := by
  have hdigits := plain_sixDigits num den
  have htake : ∀ n, Plain ((sixDigits num den).1.take n) := fun n =>
    hdigits.of_subset (List.take_subset n _)
  have hdrop : ∀ n, Plain ((sixDigits num den).1.drop n) := fun n =>
    hdigits.of_subset (List.drop_subset n _)
  unfold formatFinite
  simp only
  split_ifs
  · exact plain_of_all (by decide)
  · exact Plain.cons (by decide) (plain_afterPoint ((plain_replicate _ (by decide)).append hdigits))
  · exact (htake _).append (plain_afterPoint (hdrop _))
  · exact (htake _).append ((plain_afterPoint (hdrop _)).append
      (Plain.cons (by decide) (plain_exponentText _)))

theorem plain_formatG (x : Float) : Plain (formatG x) := by
  have hsign : Plain (if isNegative x then ['-'] else []) := by
    split
    · exact plain_of_all (by decide)
    · exact plain_nil
  unfold formatG
  simp only
  split
  · exact plain_of_all (by decide)
  · exact hsign.append (plain_of_all (by decide))
  · exact hsign.append (plain_formatFinite _ _)

theorem strip_subset (source : Text) : strip py source ⊆ source := by
  intro c hc
  have hmem := List.mem_reverse.mp (List.dropWhile_subset _ (List.mem_reverse.mp hc))
  exact List.dropWhile_subset _ hmem

theorem mem_sanitize {value : Text} (h : c ∈ sanitize py value) :
    32 ≤ c.toNat ∧ c ≠ ';' := by
  obtain ⟨d, _, rfl⟩ := List.mem_map.mp (strip_subset py _ h)
  split
  · decide
  next hd =>
    simp only [isControl, not_or, decide_eq_true_eq] at hd
    exact ⟨by omega, hd.2⟩

theorem mem_resolveText {element : Element} {context : Context}
    (h : c ∈ resolveText py element context) : 32 ≤ c.toNat ∧ c ≠ ';' :=
  mem_sanitize py (List.take_subset _ _ h)

theorem mem_qrPayload {element : Element} {context : Context}
    (h : c ∈ qrPayload py element context) : 32 ≤ c.toNat ∧ c ≠ ';' :=
  mem_sanitize py (List.take_subset _ _ h)

theorem plain_ecOptions (ec : Option Json) : Plain (ecOptions py ec) := by
  have hlevels : ∀ level ∈ ([['L'], ['M'], ['Q'], ['H']] : List Text), Plain level := by
    intro level hlevel
    have hall := List.all_eq_true.mp (show (([['L'], ['M'], ['Q'], ['H']] : List Text).all
      fun level => level.all fun c => 32 ≤ c.toNat) = true by decide) level hlevel
    exact plain_of_all hall
  refine (plain_of_all (by decide)).append (Plain.append ?_ (plain_of_all (by decide)))
  split
  next h => exact hlevels _ h
  next => exact hlevels _ (by decide)

theorem mem_commas (h : c ∈ commas fields) :
    c = ',' ∨ ∃ field ∈ fields, c ∈ field := by
  induction fields with
  | nil => cases h
  | cons first rest ih =>
    cases rest with
    | nil => exact Or.inr ⟨first, List.mem_cons_self .., by simpa [commas] using h⟩
    | cons second rest =>
      have hcons : commas (first :: second :: rest) = first ++ ',' :: commas (second :: rest) := by
        simp [commas, List.intercalate]
      rw [hcons, List.mem_append, List.mem_cons] at h
      rcases h with h | h | h
      · exact Or.inr ⟨first, List.mem_cons_self .., h⟩
      · exact Or.inl h
      · rcases ih h with h | ⟨field, hfield, hc⟩
        · exact Or.inl h
        · exact Or.inr ⟨field, List.mem_cons_of_mem _ hfield, hc⟩

theorem subset_commas {field : Text} (h : field ∈ fields) :
    field ⊆ commas fields := by
  induction fields with
  | nil => cases h
  | cons first rest ih =>
    cases rest with
    | nil =>
      rw [List.mem_singleton.mp h]
      simp [commas, List.intercalate]
    | cons second rest =>
      have hcons : commas (first :: second :: rest) = first ++ ',' :: commas (second :: rest) := by
        simp [commas, List.intercalate]
      rw [hcons]
      intro c hc
      rcases List.mem_cons.mp h with rfl | h
      · exact List.mem_append_left _ hc
      · exact List.mem_append_right _ (List.mem_cons_of_mem _ (ih h hc))

theorem plain_commas (h : ∀ field ∈ fields, Plain field) :
    Plain (commas fields) := by
  intro c hc
  rcases mem_commas hc with rfl | ⟨field, hfield, hc⟩
  · decide
  · exact h field hfield c hc

theorem oneLine_commas (h : ∀ field ∈ fields, OneLine field) :
    OneLine (commas fields) := by
  constructor
  · intro hc
    rcases mem_commas hc with heq | ⟨field, hfield, hc⟩
    · exact absurd heq (by decide)
    · exact (h field hfield).1 hc
  · intro hc
    rcases mem_commas hc with heq | ⟨field, hfield, hc⟩
    · exact absurd heq (by decide)
    · exact (h field hfield).2 hc

section Elements

variable {py} {context other : Context} {names : List Text} {element : Element}
  {added : Option Text} {line line' : Text}

theorem addElement_qr (h : element.kind = some qrKind) :
    addElement py context names element = .ok added ↔
      ∃ x, pyFloat py (element.get "x_mm") 0 = .ok x ∧
      ∃ y, pyFloat py (element.get "y_mm") 0 = .ok y ∧
      ∃ rotation, cabRotation py (element.get "rotation") = .ok rotation ∧
      ∃ dotsize, pyFloat py (element.get "dotsize_mm") 0.5 = .ok dotsize ∧
        some (barcode2dLine x y (qrPayload py element context) dotsize rotation
          (ecOptions py (element.get "ec"))) = added := by
  unfold addElement
  simp only [h, if_true, Outcome.bind_ok, Outcome.pure_ok]

theorem addElement_empty (hkind : element.kind = some textKind ∨ element.kind = some barcode1dKind)
    (hempty : resolveText py element context = [])
    (h : addElement py context names element = .ok added) : added = none := by
  have htext : some textKind ≠ some qrKind := by decide
  have hbarcode : some barcode1dKind ≠ some qrKind ∧ some barcode1dKind ≠ some textKind := by decide
  unfold addElement at h
  obtain ⟨_, _, h⟩ := Outcome.bind_ok.mp h
  obtain ⟨_, _, h⟩ := Outcome.bind_ok.mp h
  obtain ⟨_, _, h⟩ := Outcome.bind_ok.mp h
  rcases hkind with hkind | hkind
  · rw [hkind, if_neg htext, if_pos rfl] at h
    simp only [hempty, if_true] at h
    exact (Outcome.pure_ok.mp h).symm
  · rw [hkind, if_neg hbarcode.1, if_neg hbarcode.2, if_pos rfl] at h
    simp only [hempty, if_true] at h
    exact (Outcome.pure_ok.mp h).symm

theorem addElement_text (hkind : element.kind = some textKind)
    (hcontent : resolveText py element context ≠ []) :
    addElement py context names element = .ok added ↔
      ∃ x, pyFloat py (element.get "x_mm") 0 = .ok x ∧
      ∃ y, pyFloat py (element.get "y_mm") 0 = .ok y ∧
      ∃ rotation, cabRotation py (element.get "rotation") = .ok rotation ∧
      ∃ sizePt, pyInt py (element.get "size_pt") 8 = .ok sizePt ∧
      ∃ turned, pyInt py (element.get "rotation") 0 = .ok turned ∧
      ∃ anchor, textBaselineAnchor x y sizePt turned = .ok anchor ∧
      ∃ font, fontNumber py (element.get "font") names = .ok font ∧
        some (textLine anchor.1 anchor.2 (resolveText py element context) font sizePt rotation) =
          added := by
  have hqr : some textKind ≠ some qrKind := by decide
  unfold addElement
  simp only [hkind, hqr, if_false, if_true, hcontent, Outcome.bind_ok, Outcome.pure_ok]

theorem addElement_barcode (hkind : element.kind = some barcode1dKind)
    (hcontent : resolveText py element context ≠ []) :
    addElement py context names element = .ok added ↔
      ∃ x, pyFloat py (element.get "x_mm") 0 = .ok x ∧
      ∃ y, pyFloat py (element.get "y_mm") 0 = .ok y ∧
      ∃ rotation, cabRotation py (element.get "rotation") = .ok rotation ∧
      ∃ height, pyFloat py (element.get "height_mm") 8 = .ok height ∧
      ∃ ne, pyFloat py (element.get "ne_mm") 0.4 = .ok ne ∧
        some (barcode1dLine x y (resolveText py element context) (barcodeType py element) height ne
          rotation) = added := by
  have hqr : some barcode1dKind ≠ some qrKind := by decide
  have htext : some barcode1dKind ≠ some textKind := by decide
  unfold addElement
  simp only [hkind, hqr, htext, if_false, if_true, hcontent, Outcome.bind_ok, Outcome.pure_ok]

theorem addElement_handwriting (hkind : element.kind = some handwritingKind) 
    (h : addElement py context names element = .ok added) :
    ∃ line, handwritingLine py element = .ok line ∧ added = some line := by
  have hqr : some handwritingKind ≠ some qrKind := by decide
  have htext : some handwritingKind ≠ some textKind := by decide
  have hbarcode : some handwritingKind ≠ some barcode1dKind := by decide
  unfold addElement at h
  obtain ⟨_, _, h⟩ := Outcome.bind_ok.mp h
  obtain ⟨_, _, h⟩ := Outcome.bind_ok.mp h
  obtain ⟨_, _, h⟩ := Outcome.bind_ok.mp h
  rw [hkind, if_neg hqr, if_neg htext, if_neg hbarcode, if_pos rfl] at h
  obtain ⟨line, hline, h⟩ := Outcome.bind_ok.mp h
  exact ⟨line, hline, (Outcome.pure_ok.mp h).symm⟩

end Elements

/-- The command at the start of a line. -/
def Starts (c : Char) (line : Text) : Prop := ∃ rest, line = c :: ' ' :: rest

/-- Two `T` lines or two `B` lines that differ in their data alone, if at all. -/
def SameButData (line line' : Text) : Prop :=
  line = line' ∨ (((Starts 'T' line ∧ Starts 'T' line') ∨ (Starts 'B' line ∧ Starts 'B' line')) ∧
    upToLast ';' line = upToLast ';' line')

/-- The command an element is drawn with. -/
def letter (element : Element) : Char :=
  if element.kind = some textKind then 'T'
  else if element.kind = some handwritingKind then 'G' else 'B'

def isEmpty (context : Context) (element : Element) : Bool :=
  (element.kind = some textKind ∨ element.kind = some barcode1dKind) ∧
    resolveText py element context = []

/-- The bar code's type, where it is one, keeps to its line. -/
def TypeOneLine (element : Element) : Prop :=
  element.kind = some barcode1dKind → OneLine (barcodeType py element)

section Lines

variable {py} {context other : Context} {names : List Text} {element : Element}
  {added : Option Text} {line line' : Text}

theorem oneLine_command {data : Text} (hc : 32 ≤ c.toNat)
    (hfields : OneLine (commas fields)) (hdata : Plain data) :
    OneLine (c :: ' ' :: (commas fields ++ ';' :: data)) := by
  have hstart : Plain [c, ' '] := Plain.cons hc (plain_of_all (by decide))
  have hend : Plain (';' :: data) := Plain.cons (by decide) hdata
  exact hstart.oneLine.append (hfields.append hend.oneLine)

theorem plain_resolveText : Plain (resolveText py element context) :=
  fun _ hc => (mem_resolveText py hc).1

theorem plain_qrPayload : Plain (qrPayload py element context) :=
  fun _ hc => (mem_qrPayload py hc).1

theorem oneLine_textLine {x y : Float} {font sizePt rotation : ℤ} {content : Text}
    (h : Plain content) : OneLine (textLine x y content font sizePt rotation) := by
  refine oneLine_command (by decide) (plain_commas ?_).oneLine h
  simp only [List.forall_mem_cons]
  exact ⟨plain_formatG _, plain_formatG _, plain_decimalInt _, plain_decimalInt _,
    Plain.cons (by decide) (Plain.cons (by decide) (plain_decimalInt _)),
    fun _ h => absurd h List.not_mem_nil⟩

theorem oneLine_barcode2dLine {x y dotsize : Float} {rotation : ℤ} {content options : Text}
    (h : Plain content) (hoptions : Plain options) :
    OneLine (barcode2dLine x y content dotsize rotation options) := by
  refine oneLine_command (by decide) (plain_commas ?_).oneLine h
  simp only [List.forall_mem_cons]
  exact ⟨plain_formatG _, plain_formatG _, plain_decimalInt _,
    (plain_of_all (by decide)).append hoptions, plain_formatG _,
    fun _ h => absurd h List.not_mem_nil⟩

theorem oneLine_barcode1dLine {x y height ne : Float} {rotation : ℤ} {content type : Text}
    (h : Plain content) :
    OneLine (barcode1dLine x y content type height ne rotation) ↔ OneLine type := by
  constructor
  · intro hline
    have hsubset : type ⊆ barcode1dLine x y content type height ne rotation := by
      intro c hc
      refine List.mem_cons_of_mem _ (List.mem_cons_of_mem _ (List.mem_append_left _ ?_))
      exact subset_commas (by simp) hc
    exact ⟨fun hmem => hline.1 (hsubset hmem), fun hmem => hline.2 (hsubset hmem)⟩
  · intro htype
    refine oneLine_command (by decide) (oneLine_commas ?_) h
    simp only [List.forall_mem_cons]
    exact ⟨(plain_formatG _).oneLine, (plain_formatG _).oneLine, (plain_decimalInt _).oneLine,
      htype, (plain_formatG _).oneLine, (plain_formatG _).oneLine,
      fun _ h => absurd h List.not_mem_nil⟩

theorem handwritingLine_ok (h : handwritingLine py element = .ok line) :
    Starts 'G' line ∧ OneLine line := by
  unfold handwritingLine at h
  simp only [Outcome.bind_ok, Outcome.pure_ok] at h
  obtain ⟨x, _, y, _, rotation, _, length, _, thickness, _, rfl⟩ := h
  refine ⟨⟨_, rfl⟩, oneLine_command (by decide) (plain_commas ?_).oneLine ?_⟩
  · simp only [List.forall_mem_cons]
    exact ⟨plain_formatG _, plain_formatG _, plain_decimalInt _, fun _ h => absurd h List.not_mem_nil⟩
  · refine Plain.cons (by decide) (Plain.cons (by decide) (plain_commas ?_))
    simp only [List.forall_mem_cons]
    exact ⟨plain_formatG _, plain_formatG _, fun _ h => absurd h List.not_mem_nil⟩

theorem kind_cases (h : ∃ kind ∈ elementKinds, element.kind = some kind) :
    element.kind = some qrKind ∨ element.kind = some textKind ∨
      element.kind = some barcode1dKind ∨ element.kind = some handwritingKind := by
  obtain ⟨kind, hkind, heq⟩ := h
  simp only [elementKinds, List.mem_cons, List.not_mem_nil, or_false] at hkind
  rcases hkind with rfl | rfl | rfl | rfl
  · exact Or.inl heq
  · exact Or.inr (Or.inl heq)
  · exact Or.inr (Or.inr (Or.inl heq))
  · exact Or.inr (Or.inr (Or.inr heq))

/-- An element adds nothing, or one line, unless the type of its bar code breaks it. -/
theorem addElement_ok (hkind : ∃ kind ∈ elementKinds, element.kind = some kind)
    (h : addElement py context names element = .ok added) :
    (isEmpty py context element = true ∧ added = none) ∨
      (isEmpty py context element = false ∧ ∃ line, added = some line ∧
        Starts (letter element) line ∧ (OneLine line ↔ TypeOneLine py element)) := by
  have hdiffer : textKind ≠ qrKind ∧ textKind ≠ barcode1dKind ∧ textKind ≠ handwritingKind ∧
      barcode1dKind ≠ qrKind ∧ barcode1dKind ≠ handwritingKind ∧ qrKind ≠ handwritingKind := by decide
  obtain ⟨htq, htb, hth, hbq, hbh, hqh⟩ := hdiffer
  rcases kind_cases hkind with hk | hk | hk | hk
  · obtain ⟨x, _, y, _, rotation, _, dotsize, _, rfl⟩ := (addElement_qr hk).mp h
    refine Or.inr ⟨by simp [isEmpty, hk, htq.symm, hbq.symm], _, rfl,
      ⟨_, by simp only [letter, hk, Option.some.injEq, htq.symm, hqh, if_false]; rfl⟩, ?_⟩
    have htype : TypeOneLine py element := fun hbar => absurd (hk.symm.trans hbar) (by decide)
    exact iff_of_true (oneLine_barcode2dLine plain_qrPayload (plain_ecOptions py _)) htype
  · by_cases hempty : resolveText py element context = []
    · exact Or.inl ⟨by simp [isEmpty, hk, hempty], addElement_empty (Or.inl hk) hempty h⟩
    · obtain ⟨_, _, _, _, _, _, _, _, _, _, _, _, _, _, rfl⟩ := (addElement_text hk hempty).mp h
      refine Or.inr ⟨by simp [isEmpty, hempty], _, rfl, ⟨_, by rw [letter, if_pos hk]; rfl⟩, ?_⟩
      have htype : TypeOneLine py element := fun hbar => absurd (hk.symm.trans hbar) (by decide)
      exact iff_of_true (oneLine_textLine plain_resolveText) htype
  · by_cases hempty : resolveText py element context = []
    · exact Or.inl ⟨by simp [isEmpty, hk, hempty], addElement_empty (Or.inr hk) hempty h⟩
    · obtain ⟨_, _, _, _, _, _, _, _, _, _, rfl⟩ := (addElement_barcode hk hempty).mp h
      refine Or.inr ⟨by simp [isEmpty, hempty], _, rfl,
        ⟨_, by simp only [letter, hk, Option.some.injEq, htb.symm, hbh, if_false]; rfl⟩, ?_⟩
      rw [oneLine_barcode1dLine plain_resolveText]
      exact ⟨fun htype _ => htype, fun htype => htype hk⟩
  · obtain ⟨line, hline, rfl⟩ := addElement_handwriting hk h
    obtain ⟨hstarts, hone⟩ := handwritingLine_ok hline
    have htype : TypeOneLine py element := fun hbar => absurd (hk.symm.trans hbar) (by decide)
    refine Or.inr ⟨by simp [isEmpty, hk, hth.symm, hbh.symm], line, rfl, ?_, iff_of_true hone htype⟩
    simp only [letter, hk, Option.some.injEq, hth.symm, if_false, if_true]
    exact hstarts

theorem sameButData_command {fields data data' : Text} (hc : c = 'T' ∨ c = 'B')
    (hdata : ';' ∉ data) (hdata' : ';' ∉ data') :
    SameButData (c :: ' ' :: (fields ++ ';' :: data)) (c :: ' ' :: (fields ++ ';' :: data')) := by
  refine Or.inr ⟨?_, ?_⟩
  · rcases hc with rfl | rfl
    · exact Or.inl ⟨⟨_, rfl⟩, _, rfl⟩
    · exact Or.inr ⟨⟨_, rfl⟩, _, rfl⟩
  · have hsplit : ∀ {data : Text}, ';' ∉ data →
        upToLast ';' (c :: ' ' :: (fields ++ ';' :: data)) = (c :: ' ' :: fields) ++ [';'] :=
      fun h => upToLast_append (a := c :: ' ' :: fields) h
    rw [hsplit hdata, hsplit hdata']

theorem addElement_pair (hkind : ∃ kind ∈ elementKinds, element.kind = some kind)
    (h : addElement py context names element = .ok (some line))
    (h' : addElement py other names element = .ok (some line')) : SameButData line line' := by
  have htext : ∀ {context : Context}, ';' ∉ resolveText py element context :=
    fun hmem => (mem_resolveText py hmem).2 rfl
  have hqr : ∀ {context : Context}, ';' ∉ qrPayload py element context :=
    fun hmem => (mem_qrPayload py hmem).2 rfl
  have hfull : ∀ {context : Context} {line : Text},
      element.kind = some textKind ∨ element.kind = some barcode1dKind →
      addElement py context names element = .ok (some line) →
      resolveText py element context ≠ [] := by
    intro context line hk hline hempty
    cases addElement_empty hk hempty hline
  rcases kind_cases hkind with hk | hk | hk | hk
  · obtain ⟨x, hx, y, hy, r, hr, d, hd, hline⟩ := (addElement_qr hk).mp h
    obtain ⟨x', hx', y', hy', r', hr', d', hd', hline'⟩ := (addElement_qr hk).mp h'
    obtain rfl := Outcome.ok_unique hx hx'
    obtain rfl := Outcome.ok_unique hy hy'
    obtain rfl := Outcome.ok_unique hr hr'
    obtain rfl := Outcome.ok_unique hd hd'
    cases hline
    cases hline'
    exact sameButData_command (Or.inr rfl) hqr hqr
  · obtain ⟨x, hx, y, hy, r, hr, s, hs, t, ht, a, ha, f, hf, hline⟩ :=
      (addElement_text hk (hfull (Or.inl hk) h)).mp h
    obtain ⟨x', hx', y', hy', r', hr', s', hs', t', ht', a', ha', f', hf', hline'⟩ :=
      (addElement_text hk (hfull (Or.inl hk) h')).mp h'
    obtain rfl := Outcome.ok_unique hx hx'
    obtain rfl := Outcome.ok_unique hy hy'
    obtain rfl := Outcome.ok_unique hr hr'
    obtain rfl := Outcome.ok_unique hs hs'
    obtain rfl := Outcome.ok_unique ht ht'
    obtain rfl := Outcome.ok_unique hf hf'
    obtain rfl := Outcome.ok_unique ha ha'
    cases hline
    cases hline'
    exact sameButData_command (Or.inl rfl) htext htext
  · obtain ⟨x, hx, y, hy, r, hr, b, hb, n, hn, hline⟩ :=
      (addElement_barcode hk (hfull (Or.inr hk) h)).mp h
    obtain ⟨x', hx', y', hy', r', hr', b', hb', n', hn', hline'⟩ :=
      (addElement_barcode hk (hfull (Or.inr hk) h')).mp h'
    obtain rfl := Outcome.ok_unique hx hx'
    obtain rfl := Outcome.ok_unique hy hy'
    obtain rfl := Outcome.ok_unique hr hr'
    obtain rfl := Outcome.ok_unique hb hb'
    obtain rfl := Outcome.ok_unique hn hn'
    cases hline
    cases hline'
    exact sameButData_command (Or.inr rfl) htext htext
  · obtain ⟨_, hline, heq⟩ := addElement_handwriting hk h
    obtain ⟨_, hline', heq'⟩ := addElement_handwriting hk h'
    cases heq; cases heq'
    exact Or.inl (Except.ok.inj (hline.symm.trans hline'))

end Lines

end StockManager.Labels
