import StockManager.Effects.LabelLines
import StockManager.Model.Sexpr

/-! # No label data becomes a printer command -/

namespace StockManager.Labels

open PlainText

variable (py : Python)
variable {elements : List Element} {names : List Text} {added : List (Option Text)}

theorem kind_modelDump (element : ElementIn) : element.modelDump.kind = some element.kind := by
  have hget : element.modelDump.get "kind" = some (.str element.kind) := rfl
  rw [Element.kind, hget]

def Drawable (elements : List Element) : Prop :=
  ∀ element ∈ elements, ∃ kind ∈ elementKinds, element.kind = some kind

variable {py}

theorem drawable_validateElements {payload : List ElementIn}
    (h : validateElements py payload = .ok elements) : Drawable elements := by
  have hsteps := Outcome.mapM_ok h
  clear h
  induction hsteps with
  | nil => exact fun _ h => absurd h List.not_mem_nil
  | cons hfirst _ ih =>
    refine List.forall_mem_cons.mpr ⟨?_, ih⟩
    obtain ⟨hkind, hdump⟩ := Outcome.check_bind_ok.mp hfirst
    rw [← Outcome.pure_ok.mp hdump, kind_modelDump]
    exact ⟨_, hkind, rfl⟩

theorem Accepted.drawable {template : Template} (h : Accepted py template) :
    Drawable template.elements := by
  induction h with
  | created h =>
    obtain ⟨elements, helements, hrow⟩ := Outcome.bind_ok.mp h
    rw [← Outcome.pure_ok.mp hrow]
    exact drawable_validateElements helements
  | @updated payload row later _ h ih =>
    obtain ⟨elements, helements, hrow⟩ := Outcome.bind_ok.mp h
    rw [← Outcome.pure_ok.mp hrow]
    cases hpayload : payload.elements with
    | some given =>
      rw [hpayload] at helements
      exact drawable_validateElements helements
    | none =>
      rw [hpayload] at helements
      exact Except.ok.inj helements ▸ ih

variable (py)

/-- The name of the downloaded font of a text element. -/
def fontOf (element : Element) : Option Text :=
  if element.kind = some textKind then namedFont py (element.get "font") else none

/-- The distinct names of the downloaded fonts of a template. -/
def fonts (elements : List Element) : Finset Text := (elements.filterMap (fontOf py)).toFinset

theorem fontNames_append (elements : List Element) (element : Element) :
    fontNames py (elements ++ [element]) =
      (fontOf py element).elim (fontNames py elements) fun name =>
        if name ∈ fontNames py elements then fontNames py elements
        else fontNames py elements ++ [name] := by
  rw [fontNames, List.foldl_append, List.foldl_cons, List.foldl_nil, fontOf]
  split
  next => cases namedFont py (element.get "font") <;> rfl
  next => rfl

theorem nodup_fontNames (elements : List Element) : (fontNames py elements).Nodup := by
  induction elements using List.reverseRecOn with
  | nil => exact List.nodup_nil
  | append_singleton elements element ih =>
    rw [fontNames_append]
    cases fontOf py element with
    | none => exact ih
    | some name =>
      rw [Option.elim_some]
      split
      next => exact ih
      next h =>
        refine List.nodup_append.mpr ⟨ih, List.nodup_singleton _, fun a ha b hb heq => h ?_⟩
        rw [← List.mem_singleton.mp hb, ← heq]
        exact ha

theorem mem_fontNames {name : Text} :
    name ∈ fontNames py elements ↔ ∃ element ∈ elements, fontOf py element = some name := by
  induction elements using List.reverseRecOn with
  | nil => simp [fontNames]
  | append_singleton elements element ih =>
    rw [fontNames_append]
    simp only [List.mem_append, List.mem_singleton, or_and_right, exists_or, exists_eq_left, ← ih]
    cases hfont : fontOf py element with
    | none => simp
    | some own =>
      simp only [Option.some.injEq, Option.elim_some]
      split
      next h =>
        refine ⟨Or.inl, fun hor => hor.elim id fun heq => heq ▸ h⟩
      next => simp [eq_comm]

theorem length_declareFonts (elements : List Element) :
    (declareFonts py elements).length = (fonts py elements).card := by
  have hset : (fontNames py elements).toFinset = fonts py elements := by
    ext name
    rw [fonts, List.mem_toFinset, List.mem_toFinset, mem_fontNames, List.mem_filterMap]
  rw [← hset, List.toFinset_card_of_nodup (nodup_fontNames py elements), declareFonts,
    List.length_mapIdx]

theorem mem_declareFonts {line : Text}
    (h : line ∈ declareFonts py elements) : Starts 'F' line ∧ OneLine line := by
  obtain ⟨i, hi, rfl⟩ := List.mem_mapIdx.mp h
  have hname : Plain (sanitize py ((fontNames py elements)[i])) := fun _ hc => (mem_sanitize py hc).1
  refine ⟨⟨_, rfl⟩, ?_⟩
  have hstart : Plain ['F', ' '] := plain_of_all (by decide)
  exact (hstart.append ((plain_decimal _).append (Plain.cons (by decide) hname))).oneLine

/-- The lines of the program: the header, a line for each font, a line for each element that is
not empty, and the number of copies. -/
def Shaped (template : Template) (context : Context) (copies : ℕ) (program : Text) : Prop :=
  ∃ printing size declared body,
    PlainText.splitLines program = "m m".toList :: ['J'] :: printing :: size ::
      (declared ++ (body ++ ['A' :: ' ' :: decimal copies, []])) ∧
    Starts 'H' printing ∧ Starts 'S' size ∧
    declared.length = (fonts py template.elements).card ∧ (∀ line ∈ declared, Starts 'F' line) ∧
    List.Forall₂ (fun element line => Starts (letter element) line)
      (template.elements.filter fun element => !isEmpty py context element) body

/-- The two programs have as many lines, and differ in data alone. -/
def Alike (program program' : Text) : Prop :=
  List.Forall₂ SameButData (splitLines program) (splitLines program')

section Programs

variable {py} {template : Template} {context other : Context} {copies : ℕ} {program program' : Text}

theorem render_ok : render py template context copies = .ok program ↔ 1 ≤ copies ∧
    ∃ added, template.elements.mapM (addElement py context (fontNames py template.elements)) =
        .ok added ∧
      unlines (jobLines template copies (declareFonts py template.elements ++ added.filterMap id)) =
        program := by
  unfold render
  rw [Outcome.check_bind_ok]
  simp only [Outcome.bind_ok, Outcome.pure_ok]

/-- The line an element adds. -/
structure Drawn (py : Python) (context : Context) (names : List Text) (element : Element)
    (line : Text) : Prop where
  kind : ∃ kind ∈ elementKinds, element.kind = some kind
  added : addElement py context names element = .ok (some line)
  starts : Starts (letter element) line
  oneLine : OneLine line ↔ TypeOneLine py element

theorem body_of_added
    (hdrawable : Drawable elements) (h : elements.mapM (addElement py context names) = .ok added) :
    List.Forall₂ (Drawn py context names)
      (elements.filter fun element => !isEmpty py context element) (added.filterMap id) := by
  have hsteps := Outcome.mapM_ok h
  clear h
  induction hsteps with
  | nil => exact List.Forall₂.nil
  | @cons element line elements added hfirst _ ih =>
    have hrest := ih fun e he => hdrawable e (List.mem_cons_of_mem _ he)
    have hkind := hdrawable element (List.mem_cons_self ..)
    rcases addElement_ok hkind hfirst with ⟨hempty, rfl⟩ | ⟨hempty, line, rfl, hstarts, hone⟩
    · rw [List.filter_cons_of_neg (by simp [hempty]), List.filterMap_cons_none rfl]
      exact hrest
    · rw [List.filter_cons_of_pos (by simp [hempty]),
        List.filterMap_cons_some (show id (some line) = some line from rfl)]
      exact List.Forall₂.cons ⟨hkind, hfirst, hstarts, hone⟩ hrest

theorem oneLine_jobLines {lines : List Text} :
    (∀ line ∈ jobLines template copies lines, OneLine line) ↔ ∀ line ∈ lines, OneLine line := by
  have hstart : OneLine "m m".toList ∧ OneLine ['J'] :=
    ⟨(plain_of_all (by decide)).oneLine, (plain_of_all (by decide)).oneLine⟩
  have hcopies : OneLine ('A' :: ' ' :: decimal copies) :=
    (Plain.cons (by decide) (Plain.cons (by decide) (plain_decimal _))).oneLine
  have hmethod : Plain template.method.str := by
    cases template.method
    · exact plain_of_all (by decide)
    · exact plain_of_all (by decide)
  have hprint : OneLine (printLine template) := by
    refine (Plain.cons (by decide) (Plain.cons (by decide) (plain_commas ?_))).oneLine
    simp only [List.forall_mem_cons]
    exact ⟨plain_decimal _, plain_decimal _, hmethod, fun _ h => absurd h List.not_mem_nil⟩
  have hsize : OneLine (sizeLine template) := by
    have htype : Plain "l1;".toList := plain_of_all (by decide)
    refine (Plain.cons (by decide) (Plain.cons (by decide) (htype.append (plain_commas ?_)))).oneLine
    simp only [List.forall_mem_cons]
    exact ⟨plain_of_all (by decide), plain_of_all (by decide), plain_formatG _, plain_formatG _,
      plain_formatG _, fun _ h => absurd h List.not_mem_nil⟩
  simp only [jobLines, List.forall_mem_cons, List.forall_mem_append]
  constructor
  · exact fun h => h.2.2.2.2.1
  · exact fun h => ⟨hstart.1, hstart.2, hprint, hsize, h, hcopies,
      fun _ h => absurd h List.not_mem_nil⟩

theorem exists_right {α β : Type} {R : α → β → Prop} {xs : List α} {ys : List β}
    (h : List.Forall₂ R xs ys) {x : α} (hx : x ∈ xs) : ∃ y ∈ ys, R x y := by
  induction h with
  | nil => cases hx
  | cons hfirst _ ih =>
    rcases List.mem_cons.mp hx with rfl | hx
    · exact ⟨_, List.mem_cons_self .., hfirst⟩
    · obtain ⟨y, hy, hR⟩ := ih hx
      exact ⟨y, List.mem_cons_of_mem _ hy, hR⟩

theorem exists_left {α β : Type} {R : α → β → Prop} {xs : List α} {ys : List β}
    (h : List.Forall₂ R xs ys) {y : β} (hy : y ∈ ys) : ∃ x ∈ xs, R x y :=
  exists_right h.flip hy

theorem oneLine_body
    (hdrawable : Drawable elements) (h : elements.mapM (addElement py context names) = .ok added) :
    (∀ line ∈ added.filterMap id, OneLine line) ↔
      ∀ element ∈ elements, isEmpty py context element = false → TypeOneLine py element := by
  have hbody := body_of_added hdrawable h
  constructor
  · intro hall element hmem hempty
    obtain ⟨line, hline, hdrawn⟩ := exists_right hbody
      (List.mem_filter.mpr ⟨hmem, by rw [hempty]; rfl⟩)
    exact hdrawn.oneLine.mp (hall line hline)
  · intro hall line hline
    obtain ⟨element, hmem, hdrawn⟩ := exists_left hbody hline
    obtain ⟨hmem, hempty⟩ := List.mem_filter.mp hmem
    exact hdrawn.oneLine.mpr (hall element hmem (by simpa using hempty))

theorem oneLine_job (hdrawable : Drawable template.elements)
    (h : template.elements.mapM (addElement py context (fontNames py template.elements)) =
      .ok added) :
    (∀ line ∈ jobLines template copies (declareFonts py template.elements ++ added.filterMap id),
      OneLine line) ↔
      ∀ element ∈ template.elements, isEmpty py context element = false → TypeOneLine py element := by
  rw [oneLine_jobLines, List.forall_mem_append, oneLine_body hdrawable h]
  exact and_iff_right fun line hline => (mem_declareFonts py hline).2

theorem shaped_iff (hdrawable : Drawable template.elements)
    (h : render py template context copies = .ok program) :
    Shaped py template context copies program ↔
      ∀ element ∈ template.elements, isEmpty py context element = false → TypeOneLine py element := by
  obtain ⟨_, added, hadded, rfl⟩ := render_ok.mp h
  have hbody := body_of_added hdrawable hadded
  have hjob : (∀ line ∈ jobLines template copies
      (declareFonts py template.elements ++ added.filterMap id), OneLine line) ↔
        ∀ element ∈ template.elements, isEmpty py context element = false → TypeOneLine py element :=
    oneLine_job hdrawable hadded
  rw [← hjob, Shaped, splitLines_unlines]
  constructor
  · rintro ⟨printing, size, declared, body, hsplit, _, _, hdeclared, _, hlines⟩
    refine oneLine_of_flatMap ?_
    have hlength := congrArg List.length hsplit
    have hfonts := length_declareFonts py template.elements
    have hadds := hbody.length_eq
    have hdrawn := hlines.length_eq
    simp only [List.length_append, List.length_cons, List.length_nil, jobLines] at hlength ⊢
    omega
  · intro hall
    rw [flatMap_splitLines hall]
    refine ⟨printLine template, sizeLine template, declareFonts py template.elements,
      added.filterMap id, ?_, ⟨_, rfl⟩, ⟨_, rfl⟩, length_declareFonts py _, fun line hline => (mem_declareFonts py hline).1, ?_⟩
    · simp only [jobLines, List.cons_append, List.append_assoc, List.nil_append]
    · exact hbody.imp fun _ _ hdrawn => hdrawn.starts

theorem sameButData_refl (line : Text) : SameButData line line := Or.inl rfl

theorem alike_body {lines lines' : List Text}
    (h : List.Forall₂ (Drawn py context names) elements lines)
    (h' : List.Forall₂ (Drawn py other names) elements lines') :
    List.Forall₂ SameButData lines lines' := by
  induction h generalizing lines' with
  | nil =>
    cases h'
    exact List.Forall₂.nil
  | cons hfirst _ ih =>
    cases h' with
    | cons hfirst' hrest' =>
      exact List.Forall₂.cons (addElement_pair hfirst.kind hfirst.added hfirst'.added) (ih hrest')

theorem alike_render (hdrawable : Drawable template.elements)
    (h : render py template context copies = .ok program)
    (h' : render py template other copies = .ok program')
    (hempty : ∀ element ∈ template.elements,
      isEmpty py context element = isEmpty py other element)
    (htypes : ∀ element ∈ template.elements, isEmpty py context element = false →
      TypeOneLine py element) : Alike program program' := by
  obtain ⟨_, added, hadded, rfl⟩ := render_ok.mp h
  obtain ⟨_, added', hadded', rfl⟩ := render_ok.mp h'
  have htypes' : ∀ element ∈ template.elements, isEmpty py other element = false →
      TypeOneLine py element := fun element hmem hother =>
    htypes element hmem ((hempty element hmem).trans hother)
  have hsame : (template.elements.filter fun element => !isEmpty py other element) =
      template.elements.filter fun element => !isEmpty py context element :=
    List.filter_congr fun element hmem => by rw [hempty element hmem]
  have hbody := body_of_added hdrawable hadded
  have hbody' := body_of_added hdrawable hadded'
  rw [hsame] at hbody'
  rw [Alike, splitLines_unlines, splitLines_unlines,
    flatMap_splitLines ((oneLine_job hdrawable hadded).mpr htypes),
    flatMap_splitLines ((oneLine_job hdrawable hadded').mpr htypes')]
  have hrefl : ∀ lines : List Text, List.Forall₂ SameButData lines lines :=
    fun lines => List.forall₂_same.mpr fun line _ => sameButData_refl line
  have hends := hrefl ['A' :: ' ' :: decimal copies, []]
  have hfonts := hrefl (declareFonts py template.elements)
  have hbodies := List.rel_append hfonts (alike_body hbody hbody')
  have hjob := List.rel_append (hrefl ["m m".toList, ['J'], printLine template, sizeLine template])
    (List.rel_append hbodies hends)
  simpa only [jobLines, List.cons_append, List.nil_append, List.append_assoc] using hjob

end Programs

/-- Rendered labels have the lines they should, and another context changes data alone, exactly
if the type of every printed bar code keeps to its line. -/
theorem label_lines {py : Python} {template : Template} (htemplate : Accepted py template)
    {context : Context} {copies : ℕ} {program : Text}
    (h : render py template context copies = .ok program) :
    (Shaped py template context copies program ∧ ∀ other program',
      render py template other copies = .ok program' →
      (∀ element ∈ template.elements, isEmpty py context element = isEmpty py other element) →
      Alike program program') ↔
    ∀ element ∈ template.elements, isEmpty py context element = false → TypeOneLine py element := by
  have hdrawable := htemplate.drawable
  rw [← shaped_iff hdrawable h]
  refine ⟨fun hboth => hboth.1, fun hshaped => ⟨hshaped, fun other program' h' hempty => ?_⟩⟩
  exact alike_render hdrawable h h' hempty ((shaped_iff hdrawable h).mp hshaped)

/-- Python on ASCII characters. -/
def samplePython : Python where
  isSpace c := (9 ≤ c.toNat ∧ c.toNat ≤ 13) ∨ (28 ≤ c.toNat ∧ c.toNat ≤ 32)
  isWord c := c.isAlphanum ∨ c = '_'
  isDigit c := c.isDigit
  isPrintable c := 160 < c.toNat
  upper source := source.map Char.toUpper
  parseFloat _ := none
  parseInt _ := none
  reprFloat _ := ⟨"0.0".toList, plain_of_all (by decide)⟩

theorem typeField_extra (type : Text) :
    ∀ field ∈ [("bc_type".toList, Json.str type)], field.1 ∉ declaredFields := by
  intro field hfield
  have hname : "bc_type".toList ∉ declaredFields := by decide
  rw [List.mem_singleton.mp hfield]
  exact hname

/-- A bar code of the given type that shows a name. -/
def sampleElement (type : Text) : ElementIn where
  kind := barcode1dKind
  xMm := 10
  yMm := 10
  rotation := 0
  text := some ⟨"\x7b\x7bname\x7d\x7d".toList, by decide⟩
  binding := none
  extra := ⟨[("bc_type".toList, .str type)], typeField_extra type⟩

theorem sample_few (type : Text) : [sampleElement type].length ≤ 100 :=
  show 1 ≤ 100 by decide

def samplePayload (type : Text) : TemplateCreate :=
  ⟨50, 30, 3, 100, 0, .transfer, ⟨[sampleElement type], sample_few type⟩⟩

def sampleTemplate (type : Text) : Template :=
  ⟨50, 30, 3, 100, 0, .transfer, [(sampleElement type).modelDump]⟩

/-- A part's name with a command of its own in it. -/
def sampleContext : Context := fun token =>
  if token = "name".toList then some "bolt\r\nA 500; M6".toList else none

theorem sample_accepted (type : Text) : Accepted samplePython (sampleTemplate type) :=
  .created (show createTemplate samplePython (samplePayload type) = .ok (sampleTemplate type) from rfl)

theorem sample_content (type : Text) :
    resolveText samplePython (sampleElement type).modelDump sampleContext =
      "bolt  A 500  M6".toList := by
  have hcontent : (sanitize samplePython (resolveBindings samplePython sampleContext
      "\x7b\x7bname\x7d\x7d".toList)).take textMaxLen = "bolt  A 500  M6".toList := by
    decide
  exact hcontent

theorem sample_rendered (type : Text) : ∃ program,
    render samplePython (sampleTemplate type) sampleContext 1 = .ok program := by
  have hfull : resolveText samplePython (sampleElement type).modelDump sampleContext ≠ [] := by
    rw [sample_content]
    decide
  obtain ⟨line, hadd⟩ : ∃ line, addElement samplePython sampleContext []
      (sampleElement type).modelDump = .ok (some line) :=
    ⟨_, (addElement_barcode (kind_modelDump _) hfull).mpr
      ⟨10, rfl, 10, rfl, 0, rfl, 8, rfl, 0.4, rfl, rfl⟩⟩
  refine ⟨_, render_ok.mpr ⟨Nat.le_refl 1, [some line], ?_, rfl⟩⟩
  rw [sampleTemplate, List.mapM_cons]
  exact Outcome.bind_ok.mpr ⟨_, hadd, rfl⟩

theorem sample_type (type : Text) (h : type ≠ []) :
    barcodeType samplePython (sampleElement type).modelDump = type := by
  cases type with
  | nil => exact absurd rfl h
  | cons c rest => rfl

/-- A bar code of a harmless type, and a hostile name. -/
theorem label_lines_sample : ∃ program,
    render samplePython (sampleTemplate "CODE39".toList) sampleContext 1 = .ok program ∧
    Shaped samplePython (sampleTemplate "CODE39".toList) sampleContext 1 program := by
  obtain ⟨program, hprogram⟩ := sample_rendered "CODE39".toList
  refine ⟨program, hprogram, ((label_lines (sample_accepted _) hprogram).mpr ?_).1⟩
  intro element hmem _ _
  rw [List.mem_singleton.mp hmem, sample_type _ (by decide)]
  exact (plain_of_all (by decide)).oneLine

def hostileType : Text := "CODE128\r\nA 500\r\nB 0,0,0,CODE128".toList

/-- A bar code whose type holds a command. -/
theorem bar_code_type_breaks_line : ¬ ∀ program,
    createTemplate samplePython (samplePayload hostileType) = .ok (sampleTemplate hostileType) →
    render samplePython (sampleTemplate hostileType) sampleContext 1 = .ok program →
    Shaped samplePython (sampleTemplate hostileType) sampleContext 1 program := by
  intro hclaim
  obtain ⟨program, hprogram⟩ := sample_rendered hostileType
  have htype := (shaped_iff (sample_accepted hostileType).drawable hprogram).mp
    (hclaim program rfl hprogram) _ (List.mem_singleton_self _) (by
      rw [isEmpty, sample_content]
      decide) (kind_modelDump _)
  rw [sample_type _ (by decide)] at htype
  exact htype.1 (by decide)

end StockManager.Labels
