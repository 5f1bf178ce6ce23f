import Mathlib.Data.List.Basic
import Mathlib.Tactic.Common

/-! # Lines

Lists put one after the other with a separator at the end of each, and blocks of a
heading and its items. Both are read back where headings and separators are told apart. -/

namespace Lines

variable {α : Type} {sep : α}
variable {text text' : List α} {lines lines' : List (List α)}

def join (sep : α) (lines : List (List α)) : List α := lines.flatMap fun line => line ++ [sep]

@[simp] theorem join_nil : join sep [] = [] := rfl

@[simp] theorem join_cons (line : List α) (lines : List (List α)) :
    join sep (line :: lines) = line ++ sep :: join sep lines := by
  simp [join]

theorem join_append (xs ys : List (List α)) : join sep (xs ++ ys) = join sep xs ++ join sep ys :=
  List.flatMap_append

def Free (sep : α) (lines : List (List α)) : Prop := ∀ line ∈ lines, sep ∉ line

theorem Free.append {xs ys : List (List α)} (hx : Free sep xs) (hy : Free sep ys) :
    Free sep (xs ++ ys) := by
  intro line hline
  rcases List.mem_append.mp hline with hline | hline
  · exact hx line hline
  · exact hy line hline

theorem before_sep {a b later rest : List α} (ha : sep ∉ a) (hb : sep ∉ b)
    (h : a ++ sep :: later = b ++ sep :: rest) : a = b ∧ later = rest := by
  induction a generalizing b with
  | nil =>
    cases b with
    | nil => exact ⟨rfl, (List.cons.inj h).2⟩
    | cons c b => exact absurd ((List.cons.inj h).1 ▸ List.mem_cons_self ..) hb
  | cons c a ih =>
    cases b with
    | nil => exact absurd ((List.cons.inj h).1 ▸ List.mem_cons_self ..) ha
    | cons d b =>
      obtain ⟨rfl, hrest⟩ := List.cons.inj h
      obtain ⟨rfl, hlater⟩ := ih (fun hmem => ha (List.mem_cons_of_mem _ hmem))
        (fun hmem => hb (List.mem_cons_of_mem _ hmem)) hrest
      exact ⟨rfl, hlater⟩

theorem join_injective {xs ys : List (List α)} (hx : Free sep xs) (hy : Free sep ys)
    (h : join sep xs = join sep ys) : xs = ys := by
  induction xs generalizing ys with
  | nil =>
    cases ys with
    | nil => rfl
    | cons y ys => simp at h
  | cons x xs ih =>
    cases ys with
    | nil => simp at h
    | cons y ys =>
      rw [join_cons, join_cons] at h
      obtain ⟨rfl, hrest⟩ :=
        before_sep (hx x (List.mem_cons_self ..)) (hy y (List.mem_cons_self ..)) h
      rw [ih (fun l hl => hx l (List.mem_cons_of_mem _ hl))
        (fun l hl => hy l (List.mem_cons_of_mem _ hl)) hrest]

theorem exists_lines (sep : α) [DecidableEq α] (text : List α) :
    ∃ lines, Free sep lines ∧ lines ≠ [] ∧ join sep lines = text ++ [sep] := by
  induction text with
  | nil =>
    refine ⟨[[]], fun line hline => ?_, List.cons_ne_nil _ _, rfl⟩
    rw [List.mem_singleton.mp hline]
    exact List.not_mem_nil
  | cons c text ih =>
    obtain ⟨lines, hfree, hne, hjoin⟩ := ih
    by_cases hc : c = sep
    · subst hc
      refine ⟨[] :: lines, fun line hline => ?_, List.cons_ne_nil _ _, by rw [join_cons, hjoin]; rfl⟩
      rcases List.mem_cons.mp hline with rfl | hline
      · exact List.not_mem_nil
      · exact hfree line hline
    · obtain ⟨first, rest, rfl⟩ := List.exists_cons_of_ne_nil hne
      refine ⟨(c :: first) :: rest, fun line hline => ?_, List.cons_ne_nil _ _, ?_⟩
      · rcases List.mem_cons.mp hline with rfl | hline
        · have hfirst := hfree first (List.mem_cons_self ..)
          exact fun hmem => (List.mem_cons.mp hmem).elim (fun h => hc h.symm) hfirst
        · exact hfree line (List.mem_cons_of_mem _ hline)
      · rw [join_cons] at hjoin ⊢
        rw [List.cons_append, hjoin, List.cons_append]

/-- One text is the other with a separator and more lines of it, which the lines then lack. -/
def Swallows (sep : α) (text : List α) (lines : List (List α)) (text' : List α)
    (lines' : List (List α)) : Prop :=
  ∃ more, more ≠ [] ∧ text ++ [sep] = text' ++ sep :: join sep more ∧ lines' = more ++ lines

theorem Swallows.join_eq (h : Swallows sep text lines text' lines') :
    text ++ sep :: join sep lines = text' ++ sep :: join sep lines' := by
  obtain ⟨more, _, htext, rfl⟩ := h
  rw [join_append, List.append_cons, htext, List.append_assoc, List.cons_append]

theorem Swallows.ne (h : Swallows sep text lines text' lines') : text ≠ text' := by
  rintro rfl
  obtain ⟨more, hne, htext, _⟩ := h
  obtain ⟨line, rest, rfl⟩ := List.exists_cons_of_ne_nil hne
  have hlength := congrArg List.length htext
  simp at hlength

/-- A text of any kind before lines is told from them unless one has swallowed lines of
the other. -/
theorem text_join_eq [DecidableEq α] (hfree : Free sep lines) (hfree' : Free sep lines')
    (h : text ++ sep :: join sep lines = text' ++ sep :: join sep lines') :
    (text = text' ∧ lines = lines') ∨ Swallows sep text lines text' lines' ∨
      Swallows sep text' lines' text lines := by
  obtain ⟨pieces, hpieces, _, hjoin⟩ := exists_lines sep text
  obtain ⟨pieces', hpieces', _, hjoin'⟩ := exists_lines sep text'
  have hall : pieces ++ lines = pieces' ++ lines' := by
    refine join_injective (hpieces.append hfree) (hpieces'.append hfree') ?_
    rw [join_append, join_append, hjoin, hjoin', ← List.append_cons, ← List.append_cons, h]
  have hcase : ∀ {a b : List (List α)} {s t : List α}, join sep a = s ++ [sep] →
      join sep b = t ++ [sep] → ∀ more, more ≠ [] → a = b ++ more →
      s ++ [sep] = t ++ sep :: join sep more := by
    intro a b s t ha hb more _ heq
    rw [← ha, heq, join_append, hb, ← List.append_cons]
  rcases List.append_eq_append_iff.mp hall with ⟨more, hmore, hrest⟩ | ⟨more, hmore, hrest⟩
  · by_cases hne : more = []
    · subst hne
      rw [List.append_nil] at hmore
      refine Or.inl ⟨List.append_cancel_right (hjoin.symm.trans ?_), hrest⟩
      rw [← hjoin', hmore]
    · exact Or.inr (Or.inr ⟨more, hne, hcase hjoin' hjoin more hne hmore, hrest⟩)
  · by_cases hne : more = []
    · subst hne
      rw [List.append_nil] at hmore
      refine Or.inl ⟨List.append_cancel_right (hjoin.symm.trans ?_), hrest.symm⟩
      rw [← hjoin', hmore]
    · exact Or.inr (Or.inl ⟨more, hne, hcase hjoin hjoin' more hne hmore, hrest⟩)

/-- A text whose every letter is written in a code is told up to a sign that begins no word of
the code. -/
theorem code_injective {β : Type} {code : β → List α}
    (hcode : ∀ a b s t, code a ++ s = code b ++ t → a = b ∧ s = t)
    (hstop : ∀ a, ∃ c later, code a = c :: later ∧ c ≠ sep) {xs ys : List β} {s t : List α}
    (h : xs.flatMap code ++ sep :: s = ys.flatMap code ++ sep :: t) : xs = ys ∧ s = t := by
  have hword : ∀ a later rest, code a ++ later ≠ sep :: rest := by
    intro a later rest heq
    obtain ⟨c, more, hc, hne⟩ := hstop a
    rw [hc] at heq
    exact hne (List.cons.inj heq).1
  induction xs generalizing ys with
  | nil =>
    cases ys with
    | nil => exact ⟨rfl, (List.cons.inj h).2⟩
    | cons y ys =>
      rw [List.flatMap_cons, List.append_assoc] at h
      exact absurd h.symm (hword y _ _)
  | cons x xs ih =>
    rw [List.flatMap_cons, List.append_assoc] at h
    cases ys with
    | nil => exact absurd h (hword x _ _)
    | cons y ys =>
      rw [List.flatMap_cons, List.append_assoc] at h
      obtain ⟨rfl, hrest⟩ := hcode x y _ _ h
      obtain ⟨rfl, hlater⟩ := ih hrest
      exact ⟨rfl, hlater⟩

def outline (blocks : List (α × List α)) : List α := blocks.flatMap fun b => b.1 :: b.2

theorem outline_injective (heading : α → Prop) {xs ys : List (α × List α)}
    (hx : ∀ b ∈ xs, heading b.1 ∧ ∀ a ∈ b.2, ¬ heading a)
    (hy : ∀ b ∈ ys, heading b.1 ∧ ∀ a ∈ b.2, ¬ heading a) (h : outline xs = outline ys) :
    xs = ys := by
  have hhead : ∀ {l : List (α × List α)}, (∀ b ∈ l, heading b.1 ∧ ∀ a ∈ b.2, ¬ heading a) →
      ∀ a ∈ (outline l).head?, heading a := by
    intro l hl a ha
    cases l with
    | nil => cases ha
    | cons b rest =>
      obtain rfl := Option.some.inj ha
      exact (hl b (List.mem_cons_self ..)).1
  -- The items of a block end where the next heading stands, or at the end.
  have hitems : ∀ {items items' rest rest' : List α}, (∀ a ∈ items, ¬ heading a) →
      (∀ a ∈ items', ¬ heading a) → (∀ a ∈ rest.head?, heading a) → (∀ a ∈ rest'.head?, heading a) →
      items ++ rest = items' ++ rest' → items = items' ∧ rest = rest' := by
    intro items
    induction items with
    | nil =>
      intro items' rest rest' _ hitems' hrest _ heq
      cases items' with
      | nil => exact ⟨rfl, heq⟩
      | cons a items' =>
        rw [List.nil_append] at heq
        subst heq
        exact absurd (hrest a rfl) (hitems' a (List.mem_cons_self ..))
    | cons a items ih =>
      intro items' rest rest' hitems hitems' hrest hrest' heq
      cases items' with
      | nil =>
        rw [List.nil_append] at heq
        subst heq
        exact absurd (hrest' a rfl) (hitems a (List.mem_cons_self ..))
      | cons b items' =>
        obtain ⟨rfl, hmore⟩ := List.cons.inj heq
        obtain ⟨rfl, hlater⟩ := ih (fun c hc => hitems c (List.mem_cons_of_mem _ hc))
          (fun c hc => hitems' c (List.mem_cons_of_mem _ hc)) hrest hrest' hmore
        exact ⟨rfl, hlater⟩
  induction xs generalizing ys with
  | nil =>
    cases ys with
    | nil => rfl
    | cons b ys => cases h
  | cons b xs ih =>
    cases ys with
    | nil => cases h
    | cons c ys =>
      obtain ⟨hfirst, hmore⟩ := List.cons.inj (h : b.1 :: (b.2 ++ outline xs) =
        c.1 :: (c.2 ++ outline ys))
      have hxs := fun d hd => hx d (List.mem_cons_of_mem _ hd)
      have hys := fun d hd => hy d (List.mem_cons_of_mem _ hd)
      obtain ⟨hbody, hrest⟩ := hitems (hx b (List.mem_cons_self ..)).2
        (hy c (List.mem_cons_self ..)).2 (hhead hxs) (hhead hys) hmore
      rw [ih hxs hys hrest, Prod.ext hfirst hbody]

end Lines
