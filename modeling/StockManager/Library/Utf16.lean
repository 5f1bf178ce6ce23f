import StockManager.Library.Trim

/-! # UTF-16

A text as 16-bit code units, and the code points they stand for. A surrogate without
its partner stands for itself. -/

namespace Utf16

def isHigh (u : ℕ) : Bool := 0xD800 ≤ u && u < 0xDC00

def isLow (u : ℕ) : Bool := 0xDC00 ≤ u && u < 0xE000

def isSurrogate (u : ℕ) : Bool := 0xD800 ≤ u && u < 0xE000

def joined (high low : ℕ) : ℕ := 0x10000 + (high - 0xD800) * 0x400 + (low - 0xDC00)

def decode : List ℕ → List ℕ
  | [] => []
  | [u] => [u]
  | u :: v :: rest =>
    if isHigh u && isLow v then joined u v :: decode rest else u :: decode (v :: rest)

/-- The units have 16 bits, and no surrogate is without its partner. -/
def WellFormed (units : List ℕ) : Prop :=
  (∀ u ∈ units, u < 0x10000) ∧ ∀ c ∈ decode units, isSurrogate c = false

instance (units : List ℕ) : Decidable (WellFormed units) :=
  inferInstanceAs (Decidable ((∀ u ∈ units, u < 0x10000) ∧ ∀ c ∈ decode units, isSurrogate c = false))

variable {units : List ℕ} {u v : ℕ}

theorem isSurrogate_of_isHigh (h : isHigh u = true) : isSurrogate u = true := by
  simp only [isHigh, isSurrogate, Bool.and_eq_true, decide_eq_true_eq] at h ⊢
  omega

theorem isSurrogate_of_isLow (h : isLow u = true) : isSurrogate u = true := by
  simp only [isLow, isSurrogate, Bool.and_eq_true, decide_eq_true_eq] at h ⊢
  omega

theorem isHigh_eq_false (h : isSurrogate u = false) : isHigh u = false := by
  cases hu : isHigh u with
  | false => rfl
  | true => rw [isSurrogate_of_isHigh hu] at h; exact absurd h (by decide)

theorem isLow_eq_false (h : isSurrogate u = false) : isLow u = false := by
  cases hu : isLow u with
  | false => rfl
  | true => rw [isSurrogate_of_isLow hu] at h; exact absurd h (by decide)

theorem le_joined (u v : ℕ) : 0x10000 ≤ joined u v := by
  unfold joined
  omega

theorem joined_lt (hu : isHigh u = true) (hv : isLow v = true) : joined u v < 0x110000 := by
  simp only [isHigh, isLow, Bool.and_eq_true, decide_eq_true_eq] at hu hv
  unfold joined
  omega

theorem decode_lt (h : ∀ u ∈ units, u < 0x10000) : ∀ c ∈ decode units, c < 0x110000 := by
  fun_induction decode units with
  | case1 => exact fun c hc => absurd hc List.not_mem_nil
  | case2 u =>
    intro c hc
    have := h c hc
    omega
  | case3 u v rest hpair ih =>
    obtain ⟨hhigh, hlow⟩ := Bool.and_eq_true_iff.mp hpair
    rw [List.forall_mem_cons, List.forall_mem_cons] at h
    exact List.forall_mem_cons.mpr ⟨joined_lt hhigh hlow, ih h.2.2⟩
  | case4 u v rest hpair ih =>
    rw [List.forall_mem_cons] at h
    exact List.forall_mem_cons.mpr ⟨by have := h.1; omega, ih h.2⟩

theorem decode_ne_nil (u : ℕ) (units : List ℕ) : decode (u :: units) ≠ [] := by
  cases units with
  | nil => exact List.cons_ne_nil _ _
  | cons v rest =>
    rw [decode]
    split <;> exact List.cons_ne_nil _ _

theorem decode_cons (h : isHigh u = false) (units : List ℕ) : decode (u :: units) = u :: decode units := by
  cases units with
  | nil => rfl
  | cons v rest => rw [decode, h, Bool.false_and, if_neg Bool.false_ne_true]

theorem decode_map {f : ℕ → ℕ} (hfix : ∀ c, isSurrogate c = true ∨ 0x10000 ≤ c → f c = c)
    (hkeep : ∀ c, isSurrogate c = false → isSurrogate (f c) = false) (units : List ℕ) :
    decode (units.map f) = (decode units).map f := by
  fun_induction decode units with
  | case1 => rfl
  | case2 u => rfl
  | case3 u v rest hpair ih =>
    obtain ⟨hhigh, hlow⟩ := Bool.and_eq_true_iff.mp hpair
    rw [List.map_cons, List.map_cons, hfix u (.inl (isSurrogate_of_isHigh hhigh)),
      hfix v (.inl (isSurrogate_of_isLow hlow)), decode, if_pos hpair, ih, List.map_cons,
      hfix _ (.inr (le_joined u v))]
  | case4 u v rest hpair ih =>
    have hpair' : ¬ (isHigh (f u) && isLow (f v)) = true := by
      intro h
      obtain ⟨hhigh, hlow⟩ := Bool.and_eq_true_iff.mp h
      have hu : isSurrogate u = true := by
        by_contra hu
        have := hkeep u (by simpa using hu)
        rw [isSurrogate_of_isHigh hhigh] at this
        exact absurd this (by decide)
      have hv : isSurrogate v = true := by
        by_contra hv
        have := hkeep v (by simpa using hv)
        rw [isSurrogate_of_isLow hlow] at this
        exact absurd this (by decide)
      rw [hfix u (.inl hu), hfix v (.inl hv)] at h
      exact hpair h
    rw [List.map_cons] at ih
    rw [List.map_cons, List.map_cons, decode, if_neg hpair', ih, List.map_cons]

section Blanks

variable {blank : ℕ → Bool} (hblank : ∀ c, blank c = true → isSurrogate c = false ∧ c < 0x10000)

include hblank

theorem decode_blanks {lead : List ℕ} (h : ∀ c ∈ lead, blank c = true) (units : List ℕ) :
    decode (lead ++ units) = lead ++ decode units := by
  induction lead with
  | nil => rfl
  | cons c lead ih =>
    rw [List.forall_mem_cons] at h
    rw [List.cons_append, decode_cons (isHigh_eq_false (hblank c h.1).1), ih h.2, List.cons_append]

theorem decode_append_blanks {trail : List ℕ} (h : ∀ c ∈ trail, blank c = true) (units : List ℕ) :
    decode (units ++ trail) = decode units ++ trail := by
  have htrail : decode trail = trail := by
    simpa [decode] using decode_blanks hblank h []
  fun_induction decode units with
  | case1 => exact htrail
  | case2 u =>
    cases trail with
    | nil => rfl
    | cons c trail =>
      have hlow : isLow c = false := isLow_eq_false (hblank c (h c List.mem_cons_self)).1
      rw [List.singleton_append, decode, hlow, Bool.and_false, if_neg Bool.false_ne_true, htrail]
  | case3 u v rest hpair ih =>
    rw [List.cons_append, List.cons_append, decode, if_pos hpair, ih, List.cons_append]
  | case4 u v rest hpair ih =>
    rw [List.cons_append, List.cons_append, decode, if_neg hpair, ← List.cons_append, ih,
      List.cons_append]

theorem decode_head (h : ∀ c ∈ units.head?, blank c = false) : ∀ c ∈ (decode units).head?, blank c = false := by
  fun_cases decode units with
  | case1 => exact h
  | case2 u => exact h
  | case3 u v rest hpair =>
    intro c hc
    obtain rfl := Option.some.inj hc
    by_contra hb
    have := (hblank _ (by simpa using hb)).2
    have := le_joined u v
    omega
  | case4 u v rest hpair => exact h

theorem decode_last (h : ∀ c ∈ units.getLast?, blank c = false) :
    ∀ c ∈ (decode units).getLast?, blank c = false := by
  fun_induction decode units with
  | case1 => exact h
  | case2 u => exact h
  | case3 u v rest hpair ih =>
    cases rest with
    | nil =>
      intro c hc
      have heq : joined u v = c := by simpa [decode] using hc
      subst heq
      by_contra hb
      have := (hblank _ (by simpa using hb)).2
      have := le_joined u v
      omega
    | cons w rest =>
      rw [← List.singleton_append, List.getLast?_append_of_ne_nil _ (decode_ne_nil w rest)]
      exact ih h
  | case4 u v rest hpair ih =>
    rw [← List.singleton_append, List.getLast?_append_of_ne_nil _ (decode_ne_nil v rest)]
    exact ih h

theorem decode_trim (units : List ℕ) : decode (Trim.trim blank units) = Trim.trim blank (decode units) := by
  obtain ⟨lead, trail, hparts, hlead, htrail⟩ := Trim.exists_parts blank units
  obtain ⟨hhead, hlast⟩ : Trim.Trimmed blank (Trim.trim blank units) := Trim.trimmed_trim units
  generalize Trim.trim blank units = core at *
  rw [hparts, decode_blanks hblank hlead, decode_append_blanks hblank htrail]
  exact (Trim.trim_parts hlead htrail ⟨decode_head hblank hhead, decode_last hblank hlast⟩).symm

end Blanks

end Utf16
