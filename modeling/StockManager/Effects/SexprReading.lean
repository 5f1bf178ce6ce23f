import StockManager.Model.Sexpr

/-! # Reading s-expressions (domain/eda/sexpr.py)

What the reader does at each token, and what the texts that write nodes read as. -/

namespace StockManager.Sexpr

variable {members : List Item} {text : Text} {k limit : ℕ} {node : Node} {ch : Char} {member : Item}

section Steps

variable {limit : ℕ} {rest tail : Text} {node parent : Node} {below stack : List Node} {root : Option Node}

theorem parseFrom_space (h : isWhitespace ch = true) :
    parseFrom limit (ch :: rest) stack root = parseFrom limit rest stack root := by
  rw [parseFrom.eq_def]
  simp [h]

theorem parseFrom_open (hroot : stack = [] → root = none) (hdepth : stack.length < limit) :
    parseFrom limit ('(' :: rest) stack root = parseFrom limit rest ([] :: stack) root := by
  have hfirst : ¬ (stack = [] ∧ root.isSome = true) := by
    rintro ⟨hnil, hsome⟩
    rw [hroot hnil] at hsome
    cases hsome
  have hfits : ¬ limit < stack.length + 1 := by omega
  have hspace : isWhitespace '(' = false := rfl
  rw [parseFrom.eq_def]
  simp only [hspace, hfirst, hfits, if_false, if_true, Bool.false_eq_true]

theorem parseFrom_close :
    parseFrom limit (')' :: rest) (node :: parent :: below) root =
      parseFrom limit rest ((parent ++ [.node node]) :: below) root := by
  have hspace : isWhitespace ')' = false := rfl
  rw [parseFrom.eq_def]
  simp [hspace]

theorem parseFrom_closeRoot :
    parseFrom limit (')' :: rest) [node] root = parseFrom limit rest [] (some node) := by
  have hspace : isWhitespace ')' = false := rfl
  rw [parseFrom.eq_def]
  simp [hspace]

theorem parseFrom_string {value : Text} (h : readQuoted rest = .ok (value, tail)) :
    parseFrom limit ('"' :: rest) (node :: below) root =
      parseFrom limit tail ((node ++ [quoted value]) :: below) root := by
  have hspace : isWhitespace '"' = false := rfl
  rw [parseFrom.eq_def]
  simp only [hspace, Bool.false_eq_true, if_false, Char.reduceEq, if_true]
  split
  next e he =>
    rw [h] at he
    cases he
  next v t he =>
    rw [h] at he
    obtain ⟨rfl, rfl⟩ := Prod.mk.inj (Except.ok.inj he)
    rfl

theorem parseFrom_atom (h : isAtomEnd ch = false) :
    parseFrom limit (ch :: rest) (node :: below) root =
      parseFrom limit (rest.dropWhile fun c => !isAtomEnd c)
        ((node ++ [.atom ⟨ch :: rest.takeWhile fun c => !isAtomEnd c, false⟩]) :: below) root := by
  have hnot : isWhitespace ch = false ∧ ch ≠ '(' ∧ ch ≠ ')' ∧ ch ≠ '"' := by
    simp only [isAtomEnd, isWhitespace, List.mem_cons, decide_eq_false_iff_not, not_or] at h ⊢
    tauto
  obtain ⟨hspace, hopen, hclose, hquote⟩ := hnot
  rw [parseFrom.eq_def]
  simp [hspace, hopen, hclose, hquote]

end Steps

theorem readQuoted_escaped (text tail : Text) :
    readQuoted (text.flatMap escape ++ '"' :: tail) = .ok (text, tail) := by
  induction text with
  | nil => exact readQuoted_quote tail
  | cons ch text ih =>
    have hpair : ∀ next c, unescape next = some c →
        readQuoted ('\\' :: next :: (text.flatMap escape ++ '"' :: tail)) =
          .ok (c :: text, tail) := by
      intro next c hnext
      rw [readQuoted_escape, ih, hnext]
      rfl
    rw [List.flatMap_cons, List.append_assoc]
    by_cases hback : ch = '\\'
    · subst hback
      exact hpair _ _ rfl
    by_cases hquote : ch = '"'
    · subst hquote
      exact hpair _ _ rfl
    by_cases hnewline : ch = '\n'
    · subst hnewline
      exact hpair _ _ rfl
    by_cases htab : ch = '\t'
    · subst htab
      exact hpair _ _ rfl
    by_cases hreturn : ch = '\r'
    · subst hreturn
      exact hpair _ _ rfl
    have hplain : escape ch = [ch] := by simp [escape, hback, hquote, hnewline, htab, hreturn]
    rw [hplain, List.singleton_append, readQuoted_char hback hquote, ih]
    rfl

def EndsAtom (text : Text) : Prop := ∀ c ∈ text.head?, isAtomEnd c = true

theorem EndsAtom.append {text tail : Text} (h : EndsAtom text) (htail : EndsAtom tail) :
    EndsAtom (text ++ tail) := by
  cases text with
  | nil => exact htail
  | cons c text => exact h

theorem endsAtom_cons {c : Char} (hc : isAtomEnd c = true) (text : Text) :
    EndsAtom (c :: text) := by
  intro d hd
  obtain rfl := Option.some.inj hd
  exact hc

def Reads (k : ℕ) (text : Text) (members : List Item) : Prop :=
  ∀ (limit : ℕ) (node : Node) (below : List Node) (root : Option Node) (tail : Text),
    below.length + 1 + k ≤ limit → EndsAtom tail →
      parseFrom limit (text ++ tail) (node :: below) root =
        parseFrom limit tail ((node ++ members) :: below) root

theorem reads_nil (k : ℕ) : Reads k [] [] := by
  intro limit node below root tail _ _
  rw [List.append_nil, List.nil_append]

theorem Reads.mono {k m : ℕ} (h : Reads k text members) (hkm : k ≤ m) : Reads m text members := by
  intro limit node below root tail hroom htail
  exact h limit node below root tail (by omega) htail

theorem Reads.append {text text' : Text} {members members' : List Item}
    (h : Reads k text members) (h' : Reads k text' members') (hends : EndsAtom text') :
    Reads k (text ++ text') (members ++ members') := by
  intro limit node below root tail hroom htail
  rw [List.append_assoc, h limit node below root _ hroom (hends.append htail),
    h' limit _ below root tail hroom htail, List.append_assoc]

theorem Reads.space {c : Char}
    (hc : isWhitespace c = true) (h : Reads k text members) : Reads k (c :: text) members := by
  intro limit node below root tail hroom htail
  rw [List.cons_append, parseFrom_space hc]
  exact h limit node below root tail hroom htail

theorem Reads.padded (h : Reads k text members)
    (indent : ℕ) : Reads k (padding indent ++ text) members := by
  unfold padding
  induction 2 * indent with
  | zero => exact h
  | succ n ih =>
    rw [List.replicate_succ, List.cons_append]
    exact ih.space rfl

/-- The atom an emitted atom reads back as. -/
def requotedAtom (a : Atom) : Atom := ⟨a.text, a.quoted || needsQuoting a.text⟩

theorem reads_emitAtom (k : ℕ) (a : Atom) : Reads k (emitAtom a) [.atom (requotedAtom a)] := by
  intro limit node below root tail _ htail
  unfold emitAtom requotedAtom
  by_cases hquote : a.quoted = true ∨ needsQuoting a.text = true
  · have hflag : (a.quoted || needsQuoting a.text) = true := by simpa using hquote
    rw [if_pos hquote, hflag, List.cons_append, List.append_assoc, List.singleton_append]
    exact parseFrom_string (readQuoted_escaped a.text tail)
  · have hflag : (a.quoted || needsQuoting a.text) = false := by simpa using hquote
    rw [if_neg hquote, hflag]
    obtain ⟨text, quoted⟩ := a
    have hneeds : needsQuoting text = false := by
      simpa using (not_or.mp hquote).2
    cases text with
    | nil => cases hneeds
    | cons ch rest =>
      have hplain : ∀ c ∈ ch :: rest, isAtomEnd c = false := by
        have hall : (ch :: rest).any isAtomEnd = false := by
          simpa [needsQuoting] using hneeds
        simpa using hall
      have hrest : ∀ c ∈ rest, (!isAtomEnd c) = true := by
        intro c hc
        simp [hplain c (List.mem_cons_of_mem _ hc)]
      have htake : (rest ++ tail).takeWhile (fun c => !isAtomEnd c) = rest := by
        rw [List.takeWhile_append_of_pos hrest]
        cases tail with
        | nil => rw [List.takeWhile_nil, List.append_nil]
        | cons d tail =>
          have hd : isAtomEnd d = true := htail d rfl
          rw [List.takeWhile_cons_of_neg (by simp [hd]), List.append_nil]
      have hdrop : (rest ++ tail).dropWhile (fun c => !isAtomEnd c) = tail := by
        rw [List.dropWhile_append_of_pos hrest]
        cases tail with
        | nil => rfl
        | cons d tail =>
          have hd : isAtomEnd d = true := htail d rfl
          rw [List.dropWhile_cons_of_neg (by simp [hd])]
      rw [List.cons_append, parseFrom_atom (hplain ch (List.mem_cons_self ..)), htake, hdrop]

theorem Reads.enclosed (h : Reads k text members) :
    Reads (k + 1) ('(' :: (text ++ [')'])) [.node members] := by
  intro limit node below root tail hroom _
  have hfits : (node :: below).length < limit := by
    rw [List.length_cons]
    omega
  have hinner : (node :: below).length + 1 + k ≤ limit := by
    rw [List.length_cons]
    omega
  rw [List.cons_append, List.append_assoc, parseFrom_open (fun hnil => by cases hnil) hfits,
    List.singleton_append, h limit [] (node :: below) root _ hinner (endsAtom_cons rfl tail),
    List.nil_append, parseFrom_close]

theorem Reads.document (h : Reads k text members) (hk : k + 1 ≤ limit) :
    parseFrom limit ('(' :: (text ++ [')'])) [] none = .ok members := by
  have hroom : ([] : List Node).length + 1 + k ≤ limit := by
    rw [List.length_nil]
    omega
  have hfits : ([] : List Node).length < limit := by
    rw [List.length_nil]
    omega
  rw [parseFrom_open (fun _ => rfl) hfits, h limit [] [] none [')'] hroom (endsAtom_cons rfl []),
    List.nil_append, parseFrom_closeRoot, parseFrom.eq_def]
  rfl

mutual

def requoted : Item → Item
  | .atom a => .atom (requotedAtom a)
  | .node members => .node (requotedAll members)

def requotedAll : List Item → List Item
  | [] => []
  | member :: rest => requoted member :: requotedAll rest

end

mutual

/-- The nesting depth; a node without nested nodes has depth one. -/
def depth : Item → ℕ
  | .atom _ => 0
  | .node members => depthAll members + 1

def depthAll : List Item → ℕ
  | [] => 0
  | member :: rest => max (depth member) (depthAll rest)

end

theorem requotedAll_eq_map (members : List Item) : requotedAll members = members.map requoted := by
  induction members with
  | nil => rfl
  | cons member rest ih => rw [requotedAll, List.map_cons, ih]

theorem renderAll_eq_map (indent : ℕ) (members : List Item) :
    renderAll indent members = members.map (render indent) := by
  induction members with
  | nil => rfl
  | cons member rest ih => rw [renderAll, List.map_cons, ih]

theorem depth_le_depthAll (h : member ∈ members) :
    depth member ≤ depthAll members := by
  induction members with
  | nil => cases h
  | cons first rest ih =>
    rw [depthAll]
    rcases List.mem_cons.mp h with rfl | h
    · exact Nat.le_max_left ..
    · exact Nat.le_trans (ih h) (Nat.le_max_right ..)

theorem intercalate_cons (sep first : Text) (rest : List Text) :
    sep.intercalate (first :: rest) = first ++ rest.flatMap (sep ++ ·) := by
  induction rest generalizing first with
  | nil => simp [List.intercalate]
  | cons second rest ih =>
    have hnext := ih second
    simp only [List.intercalate, List.intersperse_cons_cons, List.flatten_cons,
      List.flatMap_cons] at hnext ⊢
    rw [hnext, List.append_assoc]

theorem reads_separated {sep : Char} (hsep : isWhitespace sep = true) {α : Type}
    {items : List α} (text : α → Text) (member : α → Item)
    (h : ∀ x ∈ items, Reads k (text x) [member x]) :
    Reads k ((items.map text).flatMap ([sep] ++ ·)) (items.map member) := by
  induction items with
  | nil => exact reads_nil k
  | cons x items ih =>
    have hends : ∀ t : Text, EndsAtom ([sep] ++ t) := by
      intro t
      apply endsAtom_cons
      simp only [isWhitespace, isAtomEnd, List.mem_cons, decide_eq_true_eq] at hsep ⊢
      tauto
    have hrest := ih fun y hy => h y (List.mem_cons_of_mem _ hy)
    have hfirst : Reads k ([sep] ++ text x) [member x] :=
      (h x (List.mem_cons_self ..)).space hsep
    rw [List.map_cons, List.map_cons, List.flatMap_cons]
    apply hfirst.append hrest
    cases items with
    | nil => exact fun c hc => by cases hc
    | cons y items =>
      rw [List.map_cons, List.flatMap_cons, List.append_assoc]
      exact hends _

theorem reads_joinAtoms (k : ℕ) (atoms : List Atom) :
    Reads k (joinAtoms atoms) (atoms.map fun a => .atom (requotedAtom a)) := by
  unfold joinAtoms
  cases atoms with
  | nil => exact reads_nil k
  | cons a atoms =>
    rw [List.map_cons, intercalate_cons, List.map_cons]
    have hrest : Reads k ((atoms.map emitAtom).flatMap ([' '] ++ ·))
        (atoms.map fun a => .atom (requotedAtom a)) :=
      reads_separated rfl emitAtom _ fun a _ => reads_emitAtom k a
    apply (reads_emitAtom k a).append hrest
    cases atoms with
    | nil => exact fun c hc => by cases hc
    | cons b atoms =>
      rw [List.map_cons, List.flatMap_cons, List.append_assoc]
      exact endsAtom_cons rfl _

theorem leadingAtoms_append (members : List Item) :
    (leadingAtoms members).map .atom ++ members.drop (leadingAtoms members).length = members := by
  induction members with
  | nil => rfl
  | cons member rest ih =>
    cases member with
    | node inner => rfl
    | atom a =>
      have hlead : leadingAtoms (.atom a :: rest) = a :: leadingAtoms rest := rfl
      rw [hlead, List.map_cons, List.length_cons, List.drop_succ_cons, List.cons_append, ih]

theorem leadingAtoms_all (h : members.all fun member => member.atom?.isSome) :
    (leadingAtoms members).map .atom = members := by
  induction members with
  | nil => rfl
  | cons member rest ih =>
    rw [List.all_cons, Bool.and_eq_true] at h
    cases member with
    | node inner => cases h.1
    | atom a =>
      have hlead : leadingAtoms (.atom a :: rest) = a :: leadingAtoms rest := rfl
      rw [hlead, List.map_cons, ih h.2]

theorem requoted_leadingAtoms (atoms : List Atom) :
    (atoms.map Item.atom).map requoted = atoms.map fun a => .atom (requotedAtom a) := by
  rw [List.map_map]
  rfl

theorem reads_lines {indent : ℕ}
    (h : ∀ member ∈ members, Reads (depth member) (render (indent + 1) member) [requoted member]) :
    Reads (depthAll members)
      (joinAtoms (leadingAtoms members) ++
        (((renderAll (indent + 1) members).drop (leadingAtoms members).length).flatMap
            (['\n'] ++ ·) ++ '\n' :: padding indent))
      (requotedAll members) := by
  have hrest : Reads (depthAll members)
      (((members.drop (leadingAtoms members).length).map (render (indent + 1))).flatMap
        (['\n'] ++ ·)) ((members.drop (leadingAtoms members).length).map requoted) := by
    apply reads_separated rfl
    intro member hmember
    have hmem := List.mem_of_mem_drop hmember
    exact (h member hmem).mono (depth_le_depthAll hmem)
  have hclose : Reads (depthAll members) ('\n' :: padding indent) [] := by
    have hpad := ((reads_nil (depthAll members)).padded indent).space (c := '\n') rfl
    rwa [List.append_nil] at hpad
  have hends : EndsAtom (((members.drop (leadingAtoms members).length).map
      (render (indent + 1))).flatMap (['\n'] ++ ·) ++ '\n' :: padding indent) := by
    cases members.drop (leadingAtoms members).length with
    | nil => exact endsAtom_cons rfl _
    | cons member rest =>
      rw [List.map_cons, List.flatMap_cons, List.append_assoc, List.append_assoc]
      exact endsAtom_cons rfl _
  have hall := (reads_joinAtoms (depthAll members) (leadingAtoms members)).append
    (hrest.append hclose (endsAtom_cons rfl _)) hends
  rw [renderAll_eq_map, ← List.map_drop]
  rw [List.append_nil, ← requoted_leadingAtoms, ← List.map_append, leadingAtoms_append,
    ← requotedAll_eq_map] at hall
  exact hall

theorem reads_node (indent : ℕ)
    (h : ∀ member ∈ members, Reads (depth member) (render (indent + 1) member) [requoted member]) :
    ∃ text, render indent (.node members) = padding indent ++ '(' :: (text ++ [')']) ∧
      Reads (depthAll members) text (requotedAll members) := by
  by_cases hflat : (members.all fun member => member.atom?.isSome) = true
  · refine ⟨joinAtoms (leadingAtoms members), ?_, ?_⟩
    · rw [render, if_pos hflat]
    · have hreads := reads_joinAtoms (depthAll members) (leadingAtoms members)
      rw [← requoted_leadingAtoms, leadingAtoms_all hflat, ← requotedAll_eq_map] at hreads
      exact hreads
  · refine ⟨_, ?_, reads_lines h⟩
    rw [render, if_neg hflat]
    simp only [intercalate_cons, List.flatMap_append, List.flatMap_cons, List.flatMap_nil,
      List.append_nil, List.append_assoc, List.cons_append, List.nil_append]

mutual

theorem reads_render (indent : ℕ) : (member : Item) →
    Reads (depth member) (render indent member) [requoted member]
  | .atom a => by
    rw [render]
    exact (reads_emitAtom 0 a).padded indent
  | .node members => by
    obtain ⟨text, heq, hreads⟩ := reads_node indent
      fun member hmember => reads_members members (indent + 1) member hmember
    rw [heq]
    exact hreads.enclosed.padded indent

theorem reads_members : (members : List Item) → ∀ indent, ∀ member ∈ members,
    Reads (depth member) (render indent member) [requoted member]
  | [] => by
    intro indent member hmember
    cases hmember
  | first :: rest => by
    intro indent member hmember
    rcases List.mem_cons.mp hmember with heq | hmember
    · rw [heq]
      exact reads_render indent first
    · exact reads_members rest indent member hmember

end

theorem parseFrom_emit (h : depth (.node node) ≤ limit) :
    parseFrom limit (emit node) [] none = .ok (requotedAll node) := by
  obtain ⟨text, heq, hreads⟩ := reads_node 0
    fun member hmember => reads_members node 1 member hmember
  unfold emit
  rw [heq]
  exact hreads.document h

theorem parse_emit (h : depth (.node node) ≤ maxDepth) :
    parse (emit node) = .ok (requotedAll node) := parseFrom_emit h

/-- Every node on the stack has atoms that need no more quotes and, where it is on the
stack, at most the allowed depth. -/
def Tidy (limit : ℕ) : List Node → Prop
  | [] => True
  | node :: below => requotedAll node = node ∧
      depthAll node + (below.length + 1) ≤ limit ∧ Tidy limit below

theorem requotedAll_append (hnode : requotedAll node = node)
    (hmember : requoted member = member) : requotedAll (node ++ [member]) = node ++ [member] := by
  rw [requotedAll_eq_map] at hnode ⊢
  rw [List.map_append, hnode, List.map_singleton, hmember]

theorem depthAll_append (node : Node) (member : Item) :
    depthAll (node ++ [member]) = max (depthAll node) (depth member) := by
  induction node with
  | nil => simp [depthAll]
  | cons first rest ih => rw [List.cons_append, depthAll, depthAll, ih, Nat.max_assoc]

theorem Tidy.push {below : List Node} (h : Tidy limit (node :: below))
    (hmember : requoted member = member)
    (hdepth : depth member + (below.length + 1) ≤ limit) :
    Tidy limit ((node ++ [member]) :: below) := by
  obtain ⟨hnode, hroom, hbelow⟩ := h
  refine ⟨requotedAll_append hnode hmember, ?_, hbelow⟩
  rw [depthAll_append]
  omega

theorem Tidy.pushAtom {below : List Node} {a : Atom} (h : Tidy limit (node :: below))
    (ha : requotedAtom a = a) : Tidy limit ((node ++ [.atom a]) :: below) := by
  have hroom := h.2.1
  apply h.push
  · rw [requoted, ha]
  · rw [depth]
    omega

theorem requotedAtom_run {rest : Text} (hend : isAtomEnd ch = false) :
    requotedAtom ⟨ch :: rest.takeWhile fun c => !isAtomEnd c, false⟩ =
      ⟨ch :: rest.takeWhile fun c => !isAtomEnd c, false⟩ := by
  have hneeds : needsQuoting (ch :: rest.takeWhile fun c => !isAtomEnd c) = false := by
    have hrun : ∀ c ∈ rest.takeWhile fun c => !isAtomEnd c, isAtomEnd c = false := by
      intro c hc
      simpa using List.mem_takeWhile_imp hc
    simpa [needsQuoting, hend] using hrun
  simp only [requotedAtom, hneeds, Bool.or_false]

theorem isAtomEnd_of_others (hspace : ¬ isWhitespace ch = true) (hopen : ¬ ch = '(')
    (hclose : ¬ ch = ')') (hquote : ¬ ch = '"') : isAtomEnd ch = false := by
  simp only [isAtomEnd, isWhitespace, List.mem_cons, decide_eq_false_iff_not,
    decide_eq_true_eq, not_or] at hspace ⊢
  tauto

/-- What the reader returns is within the depth limit, and requoting it changes nothing. -/
theorem parseFrom_tidy {stack : List Node} {root : Option Node}
    (h : parseFrom limit text stack root = .ok node) (hstack : Tidy limit stack)
    (hroot : ∀ n ∈ root, requotedAll n = n ∧ depth (.node n) ≤ limit) :
    requotedAll node = node ∧ depth (.node node) ≤ limit := by
  induction text, stack, root using parseFrom.induct limit with
  | case1 stack root hne =>
    rw [parseFrom.eq_def] at h
    simp [hne] at h
  | case2 stack hnil =>
    rw [parseFrom.eq_def] at h
    simp [not_not.mp hnil] at h
  | case3 stack hnil n =>
    rw [parseFrom.eq_def] at h
    have heq : n = node := by simpa [not_not.mp hnil] using h
    exact heq ▸ hroot n rfl
  | case4 stack root ch rest hspace ih =>
    rw [parseFrom_space hspace] at h
    exact ih h hstack hroot
  | case5 stack root rest hsecond hspace =>
    rw [parseFrom.eq_def] at h
    simp [hspace, hsecond] at h
  | case6 stack root rest hfirst hdeep hspace =>
    rw [parseFrom.eq_def] at h
    simp only [hspace, hfirst, hdeep, if_false, if_true, Bool.false_eq_true] at h
    cases h
  | case7 stack root rest hfirst hdeep hspace ih =>
    have hopen : stack = [] → root = none := by
      intro hnil
      cases root with
      | none => rfl
      | some n => exact absurd ⟨hnil, rfl⟩ hfirst
    rw [parseFrom_open hopen (by omega)] at h
    refine ih h ⟨rfl, ?_, hstack⟩ hroot
    rw [depthAll]
    omega
  | case8 root rest hspace hopen =>
    rw [parseFrom.eq_def] at h
    simp [hspace] at h
  | case9 root rest top hspace hopen ih =>
    rw [parseFrom_closeRoot] at h
    refine ih h trivial ?_
    intro n hn
    obtain rfl := Option.some.inj hn
    exact ⟨hstack.1, hstack.2.1⟩
  | case10 root rest top parent below hspace hopen ih =>
    rw [parseFrom_close] at h
    obtain ⟨htop, hroom, hbelow⟩ := hstack
    refine ih h (hbelow.push ?_ ?_) hroot
    · rw [requoted, htop]
    · rw [depth]
      rw [List.length_cons] at hroom
      omega
  | case11 stack root rest e hread hspace hopen hclose =>
    rw [parseFrom.eq_def] at h
    simp only [hspace, if_false, Bool.false_eq_true, Char.reduceEq, if_true] at h
    split at h
    next => cases h
    next v t he =>
      rw [hread] at he
      cases he
  | case12 root rest value after hread hspace hopen hclose =>
    rw [parseFrom.eq_def] at h
    simp only [hspace, if_false, Bool.false_eq_true, Char.reduceEq, if_true] at h
    split at h
    next => cases h
    next => cases h
  | case13 root rest value after hread top below hspace hopen hclose ih =>
    rw [parseFrom_string hread] at h
    exact ih h (hstack.pushAtom rfl) hroot
  | case14 root ch rest hspace hopen hclose hquote =>
    rw [parseFrom.eq_def] at h
    simp [hspace, hopen, hclose, hquote] at h
  | case15 root ch rest hspace hopen hclose hquote atom top below ih =>
    have hend := isAtomEnd_of_others hspace hopen hclose hquote
    rw [parseFrom_atom hend] at h
    exact ih h (hstack.pushAtom (requotedAtom_run hend)) hroot

end StockManager.Sexpr
