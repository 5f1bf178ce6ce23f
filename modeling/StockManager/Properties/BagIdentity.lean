import Mathlib
import StockManager.Model.BagSignatures

/-! # One bag, one signature

A decoder may show a control character or a space as its control picture. Neither that
nor the side that hashes the code changes the signature, but a space shown as a picture
at an end of the code is no longer trimmed. -/

namespace StockManager.Bags

open Utf16 (decode WellFormed isSurrogate)

variable {s s' units : List ℕ}

/-- Some of the characters stand there as their pictures. -/
def Pictured : List ℕ → List ℕ → Prop :=
  List.Forall₂ fun c c' => c' = c ∨ (c', c) ∈ controlPictures

/-- Only characters between the blanks at the two ends stand there as their pictures. -/
def PicturedWithin (s s' : List ℕ) : Prop :=
  ∃ lead core core' trail, s = lead ++ (core ++ trail) ∧ s' = lead ++ (core' ++ trail) ∧
    (∀ c ∈ lead, c ∈ jsWhitespace) ∧ (∀ c ∈ trail, c ∈ jsWhitespace) ∧
    Trim.Trimmed (· ∈ jsWhitespace) core ∧ Pictured core core'

def plain (c : ℕ) : ℕ := ((controlPictures.find? (·.1 = c)).map Prod.snd).getD c

theorem replace_of_not_mem {pic ctrl : ℕ} (h : pic ∉ s) : replace pic ctrl s = s := by
  rw [replace, List.map_congr_left (g := id), List.map_id]
  intro c hc
  have hne : c ≠ pic := fun heq => h (heq ▸ hc)
  exact if_neg hne

theorem normalizeControlPictures_eq (s : List ℕ) : normalizeControlPictures s = s.map plain := by
  simp only [normalizeControlPictures, replace, List.map_map]
  apply List.map_congr_left
  intro c _
  by_cases hc : c ∈ controlPictures.map Prod.fst
  · have hall : ∀ c ∈ controlPictures.map Prod.fst, [c].map plain = normalizeControlPictures [c] := by decide
    exact (List.cons.inj (hall c hc)).1.symm
  · have hnone : controlPictures.find? (·.1 = c) = none := by
      rw [List.find?_eq_none]
      intro picture hmem heq
      exact hc (List.mem_map.mpr ⟨picture, hmem, of_decide_eq_true heq⟩)
    simp only [controlPictures, List.map_cons, List.map_nil, List.mem_cons, List.not_mem_nil, or_false,
      not_or] at hc
    simp only [Function.comp_apply, plain, hnone, hc, if_false, Option.map_none, Option.getD_none]

theorem normaliseControlPictures_eq (s : List ℕ) : normaliseControlPictures s = s.map plain := by
  have hstep : ∀ (s : List ℕ) (picture : ℕ × ℕ),
      (if picture.1 ∈ s then replace picture.1 picture.2 s else s) = replace picture.1 picture.2 s := by
    intro s picture
    split
    next => rfl
    next h => exact (replace_of_not_mem h).symm
  rw [← normalizeControlPictures_eq, normaliseControlPictures]
  simp only [hstep]
  rfl

theorem plain_picture : ∀ picture ∈ controlPictures, plain picture.1 = plain picture.2 := by decide

theorem map_plain_pictured (h : Pictured s s') : s'.map plain = s.map plain := by
  induction h with
  | nil => rfl
  | cons hc _ ih =>
    rw [List.map_cons, List.map_cons, ih]
    rcases hc with rfl | hc
    · rfl
    · rw [plain_picture _ hc]

theorem picture_not_blank : ∀ picture ∈ controlPictures, picture.1 ∉ jsWhitespace := by decide

theorem head_pictured (h : Pictured s s') (hhead : ∀ c ∈ s.head?, decide (c ∈ jsWhitespace) = false) :
    ∀ c ∈ s'.head?, decide (c ∈ jsWhitespace) = false := by
  cases h with
  | nil => exact hhead
  | cons hc _ =>
    intro c hmem
    obtain rfl := Option.some.inj hmem
    rcases hc with rfl | hc
    · exact hhead _ rfl
    · exact decide_eq_false (picture_not_blank _ hc)

theorem trimmed_pictured (h : Pictured s s') (htrimmed : Trim.Trimmed (· ∈ jsWhitespace) s) :
    Trim.Trimmed (· ∈ jsWhitespace) s' := by
  refine ⟨head_pictured h htrimmed.1, ?_⟩
  rw [← List.head?_reverse]
  apply head_pictured (List.forall₂_reverse_iff.mpr h)
  rw [List.head?_reverse]
  exact htrimmed.2

theorem hashedText_pictured (h : PicturedWithin s s') : hashedText s' = hashedText s := by
  obtain ⟨lead, core, core', trail, rfl, rfl, hlead, htrail, htrimmed, hcore⟩ := h
  have hlead' : ∀ c ∈ lead, decide (c ∈ jsWhitespace) = true := fun c hc => decide_eq_true (hlead c hc)
  have htrail' : ∀ c ∈ trail, decide (c ∈ jsWhitespace) = true := fun c hc => decide_eq_true (htrail c hc)
  rw [hashedText, hashedText, jsTrim, jsTrim, Trim.trim_parts hlead' htrail' htrimmed,
    Trim.trim_parts hlead' htrail' (trimmed_pictured hcore htrimmed), normaliseControlPictures_eq,
    normaliseControlPictures_eq, map_plain_pictured hcore]

theorem isWhiteSpace_eq : isWhiteSpace = fun c => decide (c ∈ jsWhitespace) := by
  funext c
  rw [Bool.eq_iff_iff]
  simp only [isWhiteSpace, jsWhitespace, Bool.or_eq_true, Bool.and_eq_true, decide_eq_true_eq, List.mem_cons,
    List.not_mem_nil, or_false]
  omega

theorem blank_plane (c : ℕ) (h : decide (c ∈ jsWhitespace) = true) : isSurrogate c = false ∧ c < 0x10000 := by
  have hall : ∀ c ∈ jsWhitespace, isSurrogate c = false ∧ c < 0x10000 := by decide
  exact hall c (of_decide_eq_true h)

theorem plain_cases (c : ℕ) : plain c = c ∨ (c, plain c) ∈ controlPictures := by
  unfold plain
  cases h : controlPictures.find? (·.1 = c) with
  | none => exact .inl rfl
  | some picture =>
    have hfst : picture.1 = c := by simpa using List.find?_some h
    right
    rw [← hfst]
    exact List.mem_of_find?_eq_some h

theorem picture_plane : ∀ picture ∈ controlPictures, isSurrogate picture.1 = false ∧
    isSurrogate picture.2 = false ∧ picture.1 < 0x10000 := by decide

theorem decode_plain (units : List ℕ) : decode (units.map plain) = (decode units).map plain := by
  apply Utf16.decode_map
  · intro c hc
    refine (plain_cases c).resolve_right fun hmem => ?_
    obtain ⟨hplain, -, hlt⟩ := picture_plane _ hmem
    rcases hc with hc | hc
    · rw [hc] at hplain
      exact absurd hplain (by decide)
    · omega
  · intro c hc
    rcases plain_cases c with heq | hmem
    · rw [heq]
      exact hc
    · exact (picture_plane _ hmem).2.1

theorem decode_normalised (units : List ℕ) :
    decode (normalizeControlPictures (Trim.trim isWhiteSpace units)) =
      normaliseControlPictures (jsTrim (decode units)) := by
  rw [normalizeControlPictures_eq, normaliseControlPictures_eq, decode_plain, isWhiteSpace_eq,
    Utf16.decode_trim blank_plane, jsTrim]

theorem isValidChar_of_not_surrogate {c : ℕ} (hlt : c < 0x110000) (h : isSurrogate c = false) :
    c.isValidChar := by
  simp only [isSurrogate, Bool.and_eq_false_iff, decide_eq_false_iff_not] at h
  unfold Nat.isValidChar
  omega

theorem mapM_scalar (h : ∀ c ∈ s, c.isValidChar) :
    s.mapM scalar = some (s.map fun c => (scalar c).getD '\uFFFD') := by
  induction s with
  | nil => rfl
  | cons c s ih =>
    rw [List.forall_mem_cons] at h
    have hc : scalar c = some (Char.ofNat c) := if_pos h.1
    simp [List.mapM_cons, hc, ih h.2]

theorem normalised_valid (h : WellFormed units) :
    ∀ c ∈ normaliseControlPictures (jsTrim (decode units)), c.isValidChar := by
  intro c hc
  rw [normaliseControlPictures_eq] at hc
  obtain ⟨d, hd, rfl⟩ := List.mem_map.mp hc
  have hmem : d ∈ decode units := Trim.trim_subset _ hd
  rcases plain_cases d with heq | hpicture
  · rw [heq]
    exact isValidChar_of_not_surrogate (Utf16.decode_lt h.1 d hmem) (h.2 d hmem)
  · have hall : ∀ picture ∈ controlPictures, picture.2.isValidChar := by decide
    exact hall _ hpicture

theorem decode_eq_nil_iff : decode units = [] ↔ units = [] := by
  cases units with
  | nil => exact iff_of_true rfl rfl
  | cons u units => exact iff_of_false (Utf16.decode_ne_nil u units) (List.cons_ne_nil u units)

theorem clientHashedText_eq (h : WellFormed units) : clientHashedText true units = hashedText (decode units) := by
  have hempty : normalizeControlPictures (Trim.trim isWhiteSpace units) = [] ↔
      normaliseControlPictures (jsTrim (decode units)) = [] := by
    rw [← decode_normalised, decode_eq_nil_iff]
  simp only [clientHashedText, hashedText, hempty, if_true, encodedText, decode_normalised,
    mapM_scalar (normalised_valid h)]

/-- Pictures between the ends change nothing, and the browser signs what the server signs. -/
theorem bag_identity (sha256 : ByteArray → String) (hpictured : PicturedWithin s s') (hunits : WellFormed units) :
    computeBagSignature sha256 s' = computeBagSignature sha256 s ∧
      clientHashedText true units = hashedText (decode units) ∧
      bagSignature sha256 true units = computeBagSignature sha256 (decode units) := by
  refine ⟨?_, clientHashedText_eq hunits, ?_⟩
  · rw [computeBagSignature, computeBagSignature, hashedText_pictured hpictured]
  · rw [bagSignature, computeBagSignature, clientHashedText_eq hunits]

/-- Two spaces and `A B` with the space in the middle as its picture -/
theorem bag_identity_inner_space :
    computeBagSignature (fun bytes => toString bytes.size) [32, 65, 0x2420, 66] =
      computeBagSignature (fun bytes => toString bytes.size) [32, 65, 32, 66] ∧
    clientHashedText true [32, 0xD83D, 0xDE00, 0x241D] = hashedText [32, 0x1F600, 0x241D] ∧
    bagSignature (fun bytes => toString bytes.size) true [32, 0xD83D, 0xDE00, 0x241D] =
      computeBagSignature (fun bytes => toString bytes.size) [32, 0x1F600, 0x241D] :=
  @bag_identity [32, 65, 32, 66] [32, 65, 0x2420, 66] [32, 0xD83D, 0xDE00, 0x241D]
    (fun bytes => toString bytes.size)
    ⟨[32], [65, 32, 66], [65, 0x2420, 66], [], rfl, rfl, by decide, by decide, ⟨by decide, by decide⟩,
      .cons (.inl rfl) (.cons (.inr (by decide)) (.cons (.inl rfl) .nil))⟩
    (by decide)

theorem utf8_ne_of_length {a b : List Char} (h : (String.ofList a).utf8ByteSize ≠ (String.ofList b).utf8ByteSize) :
    utf8 a ≠ utf8 b := by
  intro heq
  exact h (congrArg ByteArray.size heq)

/-- `FOO` and a space hashes to another text when the space is shown as its picture; a
lone surrogate is hashed in the browser only; without `crypto.subtle` nothing is. -/
theorem trailing_space_picture :
    (Pictured [70, 79, 79, 32] [70, 79, 79, 0x2420] ∧ ∀ sha256 : ByteArray → String, Function.Injective sha256 →
      computeBagSignature sha256 [70, 79, 79, 0x2420] ≠ computeBagSignature sha256 [70, 79, 79, 32]) ∧
    (clientHashedText true [70, 0xD800] = some ['F', '\uFFFD'] ∧ hashedText (decode [70, 0xD800]) = none) ∧
    (clientHashedText false [70] = none ∧ hashedText (decode [70]) = some ['F']) := by
  refine ⟨⟨?_, fun sha256 hsha256 heq => ?_⟩, by decide, by decide⟩
  · exact .cons (.inl rfl) (.cons (.inl rfl) (.cons (.inl rfl) (.cons (.inr (by decide)) .nil)))
  · have hpicture : hashedText [70, 79, 79, 0x2420] = some ['F', 'O', 'O', ' '] := by decide
    have hspace : hashedText [70, 79, 79, 32] = some ['F', 'O', 'O'] := by decide
    rw [computeBagSignature, computeBagSignature, hpicture, hspace] at heq
    exact utf8_ne_of_length (by decide) (hsha256 (Option.some.inj heq))

end StockManager.Bags
