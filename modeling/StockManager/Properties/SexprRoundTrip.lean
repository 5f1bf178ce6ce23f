import StockManager.Effects.SexprReading

/-! # Reading and writing s-expressions are inverse -/

namespace StockManager.Sexpr

variable {rest : Text} {height : ℕ} {c : Char}

/-- What may stand between the quotes of a string. -/
inductive StringBody : Text → Prop
  | nil : StringBody []
  | char {c : Char} {rest : Text} : c ≠ '\\' → c ≠ '"' → StringBody rest → StringBody (c :: rest)
  | escape {c : Char} {rest : Text} : StringBody rest → StringBody ('\\' :: c :: rest)

/-- What may stand between the parentheses of a node that has `room` levels below it. -/
inductive Body : ℕ → Text → Prop
  | nil {room : ℕ} : Body room []
  | space {room : ℕ} {c : Char} {rest : Text} :
      isWhitespace c = true → Body room rest → Body room (c :: rest)
  | char {room : ℕ} {c : Char} {rest : Text} :
      isAtomEnd c = false → Body room rest → Body room (c :: rest)
  | string {room : ℕ} {text rest : Text} :
      StringBody text → Body room rest → Body room ('"' :: (text ++ '"' :: rest))
  | node {room : ℕ} {inner rest : Text} :
      Body room inner → Body (room + 1) rest → Body (room + 1) ('(' :: (inner ++ ')' :: rest))

def Blank (text : Text) : Prop := ∀ c ∈ text, isWhitespace c = true

/-- One balanced expression with nothing but white space around it. -/
def Balanced (text : Text) : Prop :=
  ∃ before inner after, text = before ++ '(' :: (inner ++ ')' :: after) ∧
    Blank before ∧ Body (maxDepth - 1) inner ∧ Blank after

def Closes : ℕ → Text → Prop
  | 0, text => Blank text
  | height + 1, text => ∃ inner after, text = inner ++ ')' :: after ∧
      Body (maxDepth - (height + 1)) inner ∧ Closes height after

theorem readQuoted_stringBody {text : Text} (h : StringBody text) (after : Text) :
    ∃ value, readQuoted (text ++ '"' :: after) = .ok (value, after) := by
  induction h with
  | nil => exact ⟨[], readQuoted_quote after⟩
  | char hescape hquote _ ih =>
    obtain ⟨value, hvalue⟩ := ih
    rw [List.cons_append, readQuoted_char hescape hquote, hvalue]
    exact ⟨_, rfl⟩
  | escape _ ih =>
    obtain ⟨value, hvalue⟩ := ih
    rw [List.cons_append, List.cons_append, readQuoted_escape, hvalue]
    exact ⟨_, rfl⟩

theorem stringBody_of_readQuoted {text value after : Text}
    (h : readQuoted text = .ok (value, after)) :
    ∃ body, StringBody body ∧ text = body ++ '"' :: after := by
  induction text using readQuoted.induct generalizing value with
  | case1 => cases h
  | case2 =>
    simp [readQuoted] at h
  | case3 next rest ih =>
    rw [readQuoted_escape, Outcome.map_ok] at h
    obtain ⟨⟨value', after'⟩, hread, heq⟩ := h
    obtain ⟨_, rfl⟩ := Prod.mk.inj heq
    obtain ⟨body, hbody, rfl⟩ := ih hread
    exact ⟨'\\' :: next :: body, .escape hbody, rfl⟩
  | case4 rest _ =>
    rw [readQuoted_quote] at h
    cases h
    exact ⟨[], .nil, rfl⟩
  | case5 ch rest hescape hquote ih =>
    rw [readQuoted_char hescape hquote, Outcome.map_ok] at h
    obtain ⟨⟨value', after'⟩, hread, heq⟩ := h
    obtain ⟨_, rfl⟩ := Prod.mk.inj heq
    obtain ⟨body, hbody, rfl⟩ := ih hread
    exact ⟨ch :: body, .char hescape hquote hbody, rfl⟩

theorem closes_nil (height : ℕ) : ¬ Closes (height + 1) [] := by
  rintro ⟨inner, after, heq, _⟩
  simp at heq

theorem closes_cons :
    Closes (height + 1) (c :: rest) ↔
      ((isWhitespace c = true ∨ isAtomEnd c = false) ∧ Closes (height + 1) rest) ∨
      (c = ')' ∧ Closes height rest) ∨
      (c = '"' ∧ ∃ text after, rest = text ++ '"' :: after ∧ StringBody text ∧
        Closes (height + 1) after) ∨
      (c = '(' ∧ height + 1 < maxDepth ∧ Closes (height + 2) rest) := by
  constructor
  · rintro ⟨inner, after, heq, hinner, hafter⟩
    generalize hroom : maxDepth - (height + 1) = room at hinner
    cases hinner with
    | nil =>
      obtain ⟨rfl, rfl⟩ := List.cons.inj heq
      exact Or.inr (Or.inl ⟨rfl, hafter⟩)
    | space hc hinner =>
      obtain ⟨rfl, rfl⟩ := List.cons.inj heq
      exact Or.inl ⟨Or.inl hc, _, after, rfl, hroom ▸ hinner, hafter⟩
    | char hc hinner =>
      obtain ⟨rfl, rfl⟩ := List.cons.inj heq
      exact Or.inl ⟨Or.inr hc, _, after, rfl, hroom ▸ hinner, hafter⟩
    | @string _ text body htext hbody =>
      obtain ⟨rfl, rfl⟩ := List.cons.inj heq
      refine Or.inr (Or.inr (Or.inl ⟨rfl, text, body ++ ')' :: after, ?_, htext, ?_⟩))
      · simp
      · exact ⟨body, after, rfl, hroom ▸ hbody, hafter⟩
    | @node room child body hchild hbody =>
      obtain ⟨rfl, rfl⟩ := List.cons.inj heq
      refine Or.inr (Or.inr (Or.inr ⟨rfl, by omega, child, body ++ ')' :: after, ?_, ?_, ?_⟩))
      · simp
      · have heq : maxDepth - (height + 2) = room := by omega
        exact heq ▸ hchild
      · exact ⟨body, after, rfl, hroom ▸ hbody, hafter⟩
  · rintro (⟨hc, inner, after, rfl, hinner, hafter⟩ | ⟨rfl, hrest⟩ |
      ⟨rfl, text, _, rfl, htext, body, after, rfl, hbody, hafter⟩ |
      ⟨rfl, hroom, child, _, rfl, hchild, body, after, rfl, hbody, hafter⟩)
    · exact ⟨c :: inner, after, rfl, hc.elim (fun h => .space h hinner) fun h => .char h hinner,
        hafter⟩
    · exact ⟨[], rest, rfl, .nil, hrest⟩
    · refine ⟨'"' :: (text ++ '"' :: body), after, ?_, .string htext hbody, hafter⟩
      simp
    · refine ⟨'(' :: (child ++ ')' :: body), after, ?_, ?_, hafter⟩
      · simp
      · have heq : maxDepth - (height + 1) = maxDepth - (height + 2) + 1 := by omega
        rw [heq] at hbody ⊢
        exact .node hchild hbody

theorem Closes.of_space (hc : isWhitespace c = true) :
    Closes height (c :: rest) ↔ Closes height rest := by
  cases height with
  | zero => simp [Closes, Blank, hc]
  | succ height =>
    rw [closes_cons]
    have hnot : ∀ d, isWhitespace d = false → c ≠ d := by
      rintro d hd rfl
      rw [hc] at hd
      cases hd
    simp [hc, hnot ')' rfl, hnot '"' rfl, hnot '(' rfl]

theorem closes_char (hc : isAtomEnd c = false) :
    Closes (height + 1) (c :: rest) ↔ Closes (height + 1) rest := by
  have hnot : ∀ d, isAtomEnd d = true → c ≠ d := by
    rintro d hd rfl
    rw [hc] at hd
    cases hd
  rw [closes_cons]
  simp [hc, hnot ')' rfl, hnot '"' rfl, hnot '(' rfl]

theorem closes_open :
    Closes (height + 1) ('(' :: rest) ↔ height + 1 < maxDepth ∧ Closes (height + 2) rest := by
  rw [closes_cons]
  simp [isWhitespace, isAtomEnd]

theorem closes_close :
    Closes (height + 1) (')' :: rest) ↔ Closes height rest := by
  rw [closes_cons]
  simp [isWhitespace, isAtomEnd]

theorem closes_string :
    Closes (height + 1) ('"' :: rest) ↔ ∃ value after, readQuoted rest = .ok (value, after) ∧
      Closes (height + 1) after := by
  have hiff : Closes (height + 1) ('"' :: rest) ↔ ∃ text after,
      rest = text ++ '"' :: after ∧ StringBody text ∧ Closes (height + 1) after := by
    rw [closes_cons]
    simp [isWhitespace, isAtomEnd]
  rw [hiff]
  constructor
  · rintro ⟨text, after, rfl, htext, hafter⟩
    obtain ⟨value, hvalue⟩ := readQuoted_stringBody htext after
    exact ⟨value, after, hvalue, hafter⟩
  · rintro ⟨value, after, hread, hafter⟩
    obtain ⟨body, hbody, rfl⟩ := stringBody_of_readQuoted hread
    exact ⟨body, after, rfl, hbody, hafter⟩

theorem closes_dropWhile :
    Closes (height + 1) (rest.dropWhile fun c => !isAtomEnd c) ↔ Closes (height + 1) rest := by
  induction rest with
  | nil => rfl
  | cons c rest ih =>
    cases hc : isAtomEnd c with
    | true => simp [hc]
    | false =>
      rw [closes_char hc, ← ih]
      simp [hc]

/-- What may follow when the reader has this many open nodes and has, or has not, closed the
root. -/
def Accepts (height : ℕ) (seen : Bool) (text : Text) : Prop :=
  if height = 0 ∧ seen = false then
    ∃ before rest, text = before ++ '(' :: rest ∧ Blank before ∧ Closes 1 rest
  else Closes height text

theorem accepts_open (seen : Bool) (height : ℕ) (text : Text) :
    Accepts (height + 1) seen text ↔ Closes (height + 1) text := by
  simp [Accepts]

theorem accepts_closed (text : Text) : Accepts 0 true text ↔ Blank text := by
  simp [Accepts, Closes]

theorem accepts_start (text : Text) : Accepts 0 false text ↔
    ∃ before rest, text = before ++ '(' :: rest ∧ Blank before ∧ Closes 1 rest := by
  simp [Accepts]

theorem Accepts.of_space {seen : Bool} (hc : isWhitespace c = true) :
    Accepts height seen (c :: rest) ↔ Accepts height seen rest := by
  by_cases hstart : height = 0 ∧ seen = false
  · obtain ⟨rfl, rfl⟩ := hstart
    rw [accepts_start, accepts_start]
    constructor
    · rintro ⟨before, after, heq, hbefore, hafter⟩
      cases before with
      | nil =>
        obtain ⟨rfl, _⟩ := List.cons.inj heq
        exact absurd hc (by decide)
      | cons d before =>
        obtain ⟨rfl, rfl⟩ := List.cons.inj heq
        exact ⟨before, after, rfl, fun e he => hbefore e (List.mem_cons_of_mem _ he), hafter⟩
    · rintro ⟨before, after, rfl, hbefore, hafter⟩
      refine ⟨c :: before, after, rfl, ?_, hafter⟩
      intro e he
      obtain rfl | he := List.mem_cons.mp he
      · exact hc
      · exact hbefore e he
  · simp only [Accepts, if_neg hstart]
    exact Closes.of_space hc

theorem accepts_start_open (rest : Text) : Accepts 0 false ('(' :: rest) ↔ Closes 1 rest := by
  rw [accepts_start]
  constructor
  · rintro ⟨before, after, heq, hbefore, hafter⟩
    cases before with
    | nil => exact (List.cons.inj heq).2 ▸ hafter
    | cons c before =>
      have hc := hbefore c List.mem_cons_self
      rw [← (List.cons.inj heq).1] at hc
      exact absurd hc (by decide)
  · intro h
    exact ⟨[], rest, rfl, by simp [Blank], h⟩

/-- Outside any node only white space and, before the root, an opening parenthesis may
follow. -/
theorem not_accepts_outside {seen : Bool}
    (hspace : isWhitespace c = false) (hopen : c = '(' → seen = true) :
    ¬ Accepts 0 seen (c :: rest) := by
  intro h
  cases seen with
  | true =>
    rw [accepts_closed] at h
    have hc := h c List.mem_cons_self
    rw [hspace] at hc
    cases hc
  | false =>
    rw [accepts_start] at h
    obtain ⟨before, after, heq, hbefore, _⟩ := h
    cases before with
    | nil =>
      have hc := hopen (List.cons.inj heq).1
      cases hc
    | cons d before =>
      have hc := hbefore d List.mem_cons_self
      rw [← (List.cons.inj heq).1, hspace] at hc
      cases hc

theorem parseFrom_accepts (text : Text) (stack : List Node) (root : Option Node) :
    (∃ node, parseFrom maxDepth text stack root = .ok node) ↔
      Accepts stack.length root.isSome text := by
  induction text, stack, root using parseFrom.induct maxDepth with
  | case1 stack root hne =>
    obtain ⟨top, below, rfl⟩ := List.exists_cons_of_ne_nil hne
    rw [parseFrom.eq_def, List.length_cons, accepts_open]
    simp [closes_nil]
  | case2 stack hnil =>
    rw [parseFrom.eq_def, not_not.mp hnil]
    simp [accepts_start]
  | case3 stack hnil n =>
    rw [parseFrom.eq_def, not_not.mp hnil]
    simp [accepts_closed, Blank]
  | case4 stack root ch rest hspace ih =>
    rw [parseFrom_space hspace, Accepts.of_space hspace]
    exact ih
  | case5 stack root rest hsecond hspace =>
    rw [parseFrom.eq_def, hsecond.1, hsecond.2]
    have hreject : ¬ Accepts 0 true ('(' :: rest) := not_accepts_outside rfl fun _ => rfl
    simpa [hspace] using hreject
  | case6 stack root rest hfirst hdeep hspace =>
    apply iff_of_false
    · rintro ⟨node, h⟩
      rw [parseFrom.eq_def] at h
      simp only [hspace, hfirst, hdeep, if_false, if_true, Bool.false_eq_true] at h
      cases h
    · obtain ⟨height, hheight⟩ : ∃ height, stack.length = height + 1 :=
        Nat.exists_eq_succ_of_ne_zero (by rw [maxDepth] at hdeep; omega)
      rw [hheight, accepts_open, closes_open]
      omega
  | case7 stack root rest hfirst hdeep hspace ih =>
    have hopen : stack = [] → root = none := by
      intro hnil
      cases root with
      | none => rfl
      | some n => exact absurd ⟨hnil, rfl⟩ hfirst
    rw [parseFrom_open hopen (by omega), ih, List.length_cons, accepts_open]
    cases stack with
    | nil =>
      rw [hopen rfl]
      exact (accepts_start_open rest).symm
    | cons top below =>
      rw [List.length_cons, accepts_open, closes_open]
      rw [List.length_cons] at hdeep
      exact (and_iff_right (by omega)).symm
  | case8 root rest hspace hopen =>
    apply iff_of_false
    · rintro ⟨node, h⟩
      rw [parseFrom.eq_def] at h
      simp [hspace] at h
    · exact not_accepts_outside rfl fun h => absurd h hopen
  | case9 root rest top hspace hopen ih =>
    rw [parseFrom_closeRoot, ih, List.length_singleton, accepts_open, closes_close]
    exact accepts_closed rest
  | case10 root rest top parent below hspace hopen ih =>
    rw [parseFrom_close, ih]
    simp only [List.length_cons]
    rw [accepts_open, accepts_open, closes_close]
  | case11 stack root rest e hread hspace hopen hclose =>
    apply iff_of_false
    · rintro ⟨node, h⟩
      rw [parseFrom.eq_def] at h
      simp only [hspace, if_false, Bool.false_eq_true, Char.reduceEq, if_true] at h
      split at h
      next => cases h
      next v t he =>
        rw [hread] at he
        cases he
    · cases stack with
      | nil => exact not_accepts_outside rfl fun h => absurd h hopen
      | cons top below =>
        rw [List.length_cons, accepts_open, closes_string]
        rintro ⟨value, after, hok, _⟩
        rw [hread] at hok
        cases hok
  | case12 root rest value after hread hspace hopen hclose =>
    apply iff_of_false
    · rintro ⟨node, h⟩
      rw [parseFrom.eq_def] at h
      simp only [hspace, if_false, Bool.false_eq_true, Char.reduceEq, if_true] at h
      split at h
      next => cases h
      next => cases h
    · exact not_accepts_outside rfl fun h => absurd h hopen
  | case13 root rest value after hread top below hspace hopen hclose ih =>
    rw [parseFrom_string hread, ih, List.length_cons, List.length_cons, accepts_open, accepts_open,
      closes_string]
    constructor
    · intro h
      exact ⟨value, after, hread, h⟩
    · rintro ⟨value', after', hok, h⟩
      obtain ⟨_, rfl⟩ := Prod.mk.inj (Except.ok.inj (hread.symm.trans hok))
      exact h
  | case14 root ch rest hspace hopen hclose hquote =>
    apply iff_of_false
    · rintro ⟨node, h⟩
      rw [parseFrom.eq_def] at h
      simp [hspace, hopen, hclose, hquote] at h
    · exact not_accepts_outside (by simpa using hspace) fun h => absurd h hopen
  | case15 root ch rest hspace hopen hclose hquote atom top below ih =>
    have hend := isAtomEnd_of_others hspace hopen hclose hquote
    rw [parseFrom_atom hend, ih, List.length_cons, List.length_cons, accepts_open, accepts_open,
      closes_char hend, closes_dropWhile]

theorem parse_accepts (text : Text) : (∃ node, parse text = .ok node) ↔ Balanced text := by
  rw [parse, parseFrom_accepts, List.length_nil, Option.isSome_none, accepts_start]
  constructor
  · rintro ⟨before, _, rfl, hbefore, inner, after, rfl, hinner, hafter⟩
    exact ⟨before, inner, after, rfl, hbefore, hinner, hafter⟩
  · rintro ⟨before, inner, after, rfl, hbefore, hinner, hafter⟩
    exact ⟨before, _, rfl, hbefore, inner, after, rfl, hinner, hafter⟩

theorem parse_emit_parse {text : Text} {node : Node} (h : parse text = .ok node) :
    parse (emit node) = .ok node := by
  have htidy := parseFrom_tidy h trivial (by simp)
  rw [parse_emit htidy.2, htidy.1]

/-- Every node of depth at most 32 is read back from its text, quoted exactly where an atom
is empty or has a delimiter; what was read is written and read back unchanged; and the texts
read are the balanced expressions. -/
theorem parse_emit_inverse :
    (∀ node : Node, depth (.node node) ≤ maxDepth → parse (emit node) = .ok (requotedAll node)) ∧
    (∀ (text : Text) (node : Node), parse text = .ok node → parse (emit node) = .ok node ∧
      ∀ again, parse (emit node) = .ok again → emit again = emit node) ∧
    ∀ text : Text, (∃ node, parse text = .ok node) ↔ Balanced text := by
  refine ⟨fun node h => parse_emit h, ?_, parse_accepts⟩
  intro text node h
  have hagain := parse_emit_parse h
  refine ⟨hagain, ?_⟩
  intro again hok
  obtain rfl := Except.ok.inj (hagain.symm.trans hok)
  rfl

/-- A pin whose bare name has a space, and a quoted path that ends in a backslash. -/
def sampleNode : Node :=
  [bare "symbol", .node [bare "pin", bare "A 1", .node []], quoted "C:\\".toList]

theorem parse_emit_inverse_sample :
    depth (.node sampleNode) ≤ maxDepth ∧
    parse (emit sampleNode) = .ok (requotedAll sampleNode) ∧
    parse (emit (requotedAll sampleNode)) = .ok (requotedAll sampleNode) ∧
    Balanced (emit sampleNode) := by
  have hdepth : depth (.node sampleNode) ≤ maxDepth := by decide
  have hparse := parse_emit_inverse.1 sampleNode hdepth
  exact ⟨hdepth, hparse, (parse_emit_inverse.2.1 _ _ hparse).1,
    (parse_emit_inverse.2.2 _).mp ⟨_, hparse⟩⟩

end StockManager.Sexpr
