import Mathlib.Data.List.Basic
import Mathlib.Data.List.TakeWhile
import Mathlib.Tactic.Common

/-! # Blanks at the ends of a list

`trim blank` drops the blank elements at both ends; a list is `Trimmed` when it neither
begins nor ends with one. -/

namespace Trim

variable {α β : Type} {blank : α → Bool} {l l' : List α}

def trim (blank : α → Bool) (l : List α) : List α :=
  ((l.dropWhile blank).reverse.dropWhile blank).reverse

def Trimmed (blank : α → Bool) (l : List α) : Prop :=
  (∀ a ∈ l.head?, blank a = false) ∧ ∀ a ∈ l.getLast?, blank a = false

theorem dropWhile_head (l : List α) : ∀ a ∈ (l.dropWhile blank).head?, blank a = false := by
  intro a ha
  have hhead := List.head?_dropWhile_not blank l
  rw [Option.mem_def.mp ha] at hhead
  simpa using hhead

theorem dropWhile_of_head (h : ∀ a ∈ l.head?, blank a = false) : l.dropWhile blank = l := by
  cases l with
  | nil => rfl
  | cons a l => rw [List.dropWhile_cons, h a rfl, if_neg Bool.false_ne_true]

theorem takeWhile_of_head (h : ∀ a ∈ l.head?, blank a = false) : l.takeWhile blank = [] := by
  cases l with
  | nil => rfl
  | cons a l => rw [List.takeWhile_cons, h a rfl, if_neg Bool.false_ne_true]

theorem takeWhile_append (h : ∀ a ∈ l, blank a = true) (h' : ∀ a ∈ l'.head?, blank a = false) :
    (l ++ l').takeWhile blank = l := by
  rw [List.takeWhile_append_of_pos h, takeWhile_of_head h', List.append_nil]

theorem dropWhile_append (h : ∀ a ∈ l, blank a = true) (h' : ∀ a ∈ l'.head?, blank a = false) :
    (l ++ l').dropWhile blank = l' := by
  rw [List.dropWhile_append_of_pos h, dropWhile_of_head h']

theorem trim_of_trimmed (h : Trimmed blank l) : trim blank l = l := by
  have hlast : ∀ a ∈ l.reverse.head?, blank a = false := by
    rw [List.head?_reverse]
    exact h.2
  rw [trim, dropWhile_of_head h.1, dropWhile_of_head hlast, List.reverse_reverse]

theorem trimmed_trim (l : List α) : Trimmed blank (trim blank l) := by
  constructor
  · rw [trim, List.head?_reverse]
    intro a ha
    -- the last element of what is kept at the end is the first of what is kept at the start
    have hsuffix := List.dropWhile_suffix blank (l := (l.dropWhile blank).reverse)
    obtain ⟨front, hfront⟩ := hsuffix
    have hne : (l.dropWhile blank).reverse.dropWhile blank ≠ [] := by
      rintro heq
      rw [heq] at ha
      exact absurd ha (by simp)
    have hlast : (l.dropWhile blank).reverse.getLast? = some a := by
      rw [← hfront, List.getLast?_append_of_ne_nil _ hne]
      exact ha
    rw [List.getLast?_reverse] at hlast
    exact dropWhile_head l a hlast
  · rw [trim, List.getLast?_reverse]
    exact dropWhile_head _

theorem trim_eq_self_iff : trim blank l = l ↔ Trimmed blank l :=
  ⟨fun h => h ▸ trimmed_trim l, trim_of_trimmed⟩

theorem trim_subset (l : List α) : trim blank l ⊆ l := by
  intro a ha
  rw [trim, List.mem_reverse] at ha
  have hkept := (List.dropWhile_suffix blank).subset ha
  rw [List.mem_reverse] at hkept
  exact (List.dropWhile_suffix blank).subset hkept

theorem mem_dropWhile {a : α} (ha : blank a = false) (h : a ∈ l) : a ∈ l.dropWhile blank := by
  rw [← List.takeWhile_append_dropWhile (p := blank) (l := l), List.mem_append] at h
  refine h.resolve_left fun hmem => ?_
  rw [List.all_eq_true.mp List.all_takeWhile a hmem] at ha
  exact absurd ha (by decide)

theorem mem_trim_of_not_blank {a : α} (ha : blank a = false) (h : a ∈ l) : a ∈ trim blank l := by
  rw [trim, List.mem_reverse]
  exact mem_dropWhile ha (List.mem_reverse.mpr (mem_dropWhile ha h))

theorem trim_cons {a : α} (ha : blank a = true) (l : List α) : trim blank (a :: l) = trim blank l := by
  rw [trim, List.dropWhile_cons_of_pos ha, trim]

theorem trim_append_singleton {a : α} (ha : blank a = true) (h : Trimmed blank l) :
    trim blank (l ++ [a]) = l := by
  cases l with
  | nil => simp [trim, ha]
  | cons b l =>
    have hb : blank b = false := h.1 b rfl
    have hkeep : (b :: l ++ [a]).dropWhile blank = b :: l ++ [a] :=
      dropWhile_of_head fun c hc => by
        rw [← Option.some.inj hc]
        exact hb
    have hlast : ∀ c ∈ (b :: l).reverse.head?, blank c = false := by
      rw [List.head?_reverse]
      exact h.2
    rw [trim, hkeep, List.reverse_append, List.reverse_singleton, List.singleton_append,
      List.dropWhile_cons_of_pos ha, dropWhile_of_head hlast, List.reverse_reverse]

theorem Trimmed.join (hl : Trimmed blank l) (hl' : Trimmed blank l') (hne : l ≠ []) (hne' : l' ≠ [])
    (between : List α) : Trimmed blank (l ++ (between ++ l')) := by
  constructor
  · rw [List.head?_append_of_ne_nil _ hne]
    exact hl.1
  · rw [← List.append_assoc, List.getLast?_append_of_ne_nil _ hne']
    exact hl'.2

theorem Trimmed.of_forall (h : ∀ a ∈ l, blank a = false) : Trimmed blank l :=
  ⟨fun a ha => h a (List.mem_of_mem_head? ha), fun a ha => h a (List.mem_of_mem_getLast? ha)⟩

theorem dropWhile_eq_trim (h : ∀ a ∈ l.getLast?, blank a = false) :
    l.dropWhile blank = trim blank l := by
  have hlast : ∀ a ∈ (l.dropWhile blank).reverse.head?, blank a = false := by
    intro a ha
    rw [List.head?_reverse] at ha
    have hne : l.dropWhile blank ≠ [] := fun heq => by simp [heq] at ha
    have hwhole := List.takeWhile_append_dropWhile (p := blank) (l := l)
    refine h a ?_
    rw [← hwhole, List.getLast?_append_of_ne_nil _ hne]
    exact ha
  rw [trim, dropWhile_of_head hlast, List.reverse_reverse]

theorem exists_parts (blank : α → Bool) (l : List α) : ∃ lead trail, l = lead ++ (trim blank l ++ trail) ∧
    (∀ a ∈ lead, blank a = true) ∧ ∀ a ∈ trail, blank a = true := by
  refine ⟨l.takeWhile blank, ((l.dropWhile blank).reverse.takeWhile blank).reverse, ?_, ?_, ?_⟩
  · rw [trim, ← List.reverse_append, List.takeWhile_append_dropWhile, List.reverse_reverse,
      List.takeWhile_append_dropWhile]
  · exact fun a ha => List.mem_takeWhile_imp ha
  · exact fun a ha => List.mem_takeWhile_imp (List.mem_reverse.mp ha)

theorem trim_parts {lead core trail : List α} (hlead : ∀ a ∈ lead, blank a = true)
    (htrail : ∀ a ∈ trail, blank a = true) (h : Trimmed blank core) :
    trim blank (lead ++ (core ++ trail)) = core := by
  have hfirst : trim blank (lead ++ (core ++ trail)) = trim blank (core ++ trail) := by
    rw [trim, List.dropWhile_append_of_pos hlead, trim]
  rw [hfirst]
  cases core with
  | nil =>
    rw [List.nil_append, trim, List.dropWhile_eq_nil_iff.mpr htrail]
    rfl
  | cons a core =>
    have hhead : ∀ b ∈ (a :: core ++ trail).head?, blank b = false := h.1
    have hlast : ∀ b ∈ (a :: core).reverse.head?, blank b = false := by
      rw [List.head?_reverse]
      exact h.2
    rw [trim, dropWhile_of_head hhead, List.reverse_append,
      dropWhile_append (fun b hb => htrail b (List.mem_reverse.mp hb)) hlast, List.reverse_reverse]

end Trim
