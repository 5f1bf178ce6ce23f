import StockManager.Library.Trim
import StockManager.Model.Budget

/-! # `str.strip` and `str.split` -/

namespace StockManager

open Trim

theorem toList_strip (text : String) : (strip text).toList = trim isSpace text.toList := by
  rw [strip, String.toList_ofList, trim]

theorem strip_eq_self_iff {text : String} : strip text = text ↔ Trimmed isSpace text.toList := by
  rw [← trim_eq_self_iff, ← toList_strip, String.toList_inj]

theorem strip_strip (text : String) : strip (strip text) = strip text := by
  rw [strip_eq_self_iff, toList_strip]
  exact trimmed_trim text.toList

theorem not_of_mem_splitOnP {p : Char → Bool} {text piece : List Char} (h : piece ∈ text.splitOnP p) :
    ∀ c ∈ piece, p c = false := by
  induction text generalizing piece with
  | nil =>
    rw [List.splitOnP_nil, List.mem_singleton] at h
    rw [h]
    exact fun _ hc => absurd hc List.not_mem_nil
  | cons c text ih =>
    rw [List.splitOnP_cons_eq_if_modifyHead] at h
    split at h
    next =>
      rcases List.mem_cons.mp h with rfl | h
      · exact fun _ hc => absurd hc List.not_mem_nil
      · exact ih h
    next hc =>
      cases hsplit : text.splitOnP p with
      | nil => exact absurd hsplit (List.splitOnP_ne_nil p text)
      | cons first rest =>
        rw [hsplit] at h ih
        rcases List.mem_cons.mp h with rfl | h
        · rw [List.forall_mem_cons]
          exact ⟨by simpa using hc, ih List.mem_cons_self⟩
        · exact ih (List.mem_cons_of_mem _ h)

theorem not_mem_of_mem_splitOn {a : Char} {text piece : List Char} (h : piece ∈ text.splitOn a) :
    a ∉ piece := by
  intro ha
  have hnot := not_of_mem_splitOnP (p := (· == a)) h a ha
  simp at hnot

/-- `text.split()` -/
def words (text : String) : List String :=
  ((text.toList.splitOnP isSpace).filter (· ≠ [])).map String.ofList

theorem mem_words {text word : String} (h : word ∈ words text) :
    word ≠ "" ∧ strip word = word := by
  obtain ⟨piece, hpiece, rfl⟩ := List.mem_map.mp h
  obtain ⟨hmem, hne⟩ := List.mem_filter.mp hpiece
  refine ⟨fun heq => ?_, ?_⟩
  · exact of_decide_eq_true hne (by rw [← String.toList_ofList (l := piece), heq]; rfl)
  · rw [strip_eq_self_iff, String.toList_ofList]
    exact Trimmed.of_forall (not_of_mem_splitOnP hmem)

theorem strip_append {a b : String} (ha : strip a = a) (hb : strip b = b) (hne : a ≠ "") (hne' : b ≠ "")
    (between : String) : strip (a ++ (between ++ b)) = a ++ (between ++ b) := by
  rw [strip_eq_self_iff] at ha hb ⊢
  rw [String.toList_append, String.toList_append]
  exact ha.join hb (by simpa using hne) (by simpa using hne') _

/-- Words joined by a separator have no white space at the ends. -/
theorem strip_intercalate {separator : String} {pieces : List String} (hne : pieces ≠ [])
    (h : ∀ piece ∈ pieces, piece ≠ "" ∧ strip piece = piece) :
    separator.intercalate pieces ≠ "" ∧
      strip (separator.intercalate pieces) = separator.intercalate pieces := by
  induction pieces with
  | nil => exact absurd rfl hne
  | cons piece pieces ih =>
    rw [List.forall_mem_cons] at h
    cases pieces with
    | nil =>
      rw [String.intercalate_singleton]
      exact h.1
    | cons next pieces =>
      obtain ⟨hrest, hstrip⟩ := ih (List.cons_ne_nil _ _) h.2
      rw [String.intercalate_cons_cons, String.append_assoc]
      refine ⟨fun hempty => ?_, strip_append h.1.2 hstrip h.1.1 hrest separator⟩
      exact h.1.1 (String.append_eq_empty_iff.mp hempty).1

end StockManager
