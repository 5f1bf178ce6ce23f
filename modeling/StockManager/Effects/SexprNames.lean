import StockManager.Effects.SexprReading

/-! # What renaming and re-pointing an entry leave alone -/

namespace StockManager.Sexpr

variable {node renamed : Node} {name newName : Text}

/-- What the reader builds: no atom lacks its quotes, and the nesting is within bounds. -/
structure Stable (node : Node) : Prop where
  marked : requotedAll node = node
  shallow : depth (.node node) ≤ maxDepth

theorem Stable.parse_emit (h : Stable node) : parse (emit node) = .ok node := by
  rw [Sexpr.parse_emit h.shallow, h.marked]

theorem requotedAll_eq_self :
    requotedAll node = node ↔ ∀ member ∈ node, requoted member = member := by
  rw [requotedAll_eq_map]
  conv_lhs => rw [← List.map_id node, List.map_map, Function.comp_id]
  exact List.map_inj_left

theorem depthAll_le {bound : ℕ} :
    depthAll node ≤ bound ↔ ∀ member ∈ node, depth member ≤ bound := by
  induction node with
  | nil => simp [depthAll]
  | cons member rest ih =>
    rw [depthAll, Nat.max_le, ih, List.forall_mem_cons]

theorem depth_node_le {bound : ℕ} :
    depth (.node node) ≤ bound + 1 ↔ ∀ member ∈ node, depth member ≤ bound := by
  rw [depth, Nat.add_le_add_iff_right, depthAll_le]

theorem stable_iff : Stable node ↔
    ∀ member ∈ node, requoted member = member ∧ depth member ≤ maxDepth - 1 := by
  have hdepth : depth (.node node) ≤ maxDepth ↔ ∀ member ∈ node, depth member ≤ maxDepth - 1 :=
    depth_node_le
  constructor
  · intro h member hmember
    exact ⟨requotedAll_eq_self.mp h.marked member hmember, hdepth.mp h.shallow member hmember⟩
  · intro h
    exact ⟨requotedAll_eq_self.mpr fun member hmember => (h member hmember).1,
      hdepth.mpr fun member hmember => (h member hmember).2⟩

theorem requoted_node : requoted (.node node) = .node node ↔
    requotedAll node = node := by
  rw [requoted]
  constructor
  · exact Item.node.inj
  · intro h
    rw [h]

theorem requoted_quoted (text : Text) : requoted (quoted text) = quoted text := rfl

theorem depth_quoted (text : Text) : depth (quoted text) = 0 := rfl

theorem Stable.of_nested (h : Stable node) {members members' : Node}
    (hmem : Item.node members ∈ node)
    (hmembers : ∀ member ∈ members', member ∈ members ∨ ∃ text, member = quoted text) :
    requoted (.node members') = .node members' ∧ depth (.node members') ≤ maxDepth - 1 := by
  obtain ⟨hquoted, hdepth⟩ := stable_iff.mp h _ hmem
  rw [requoted_node, requotedAll_eq_self] at hquoted ⊢
  have hmax : maxDepth - 1 = 30 + 1 := rfl
  rw [hmax, depth_node_le] at hdepth ⊢
  constructor
  · intro member hmember
    obtain hold | ⟨text, rfl⟩ := hmembers member hmember
    · exact hquoted member hold
    · rfl
  · intro member hmember
    obtain hold | ⟨text, rfl⟩ := hmembers member hmember
    · exact hdepth member hold
    · rw [depth_quoted]
      omega

theorem stable_of_parse {text : Text} (h : parse text = .ok node) : Stable node := by
  obtain ⟨hmarked, hshallow⟩ := parseFrom_tidy h trivial (by simp)
  exact ⟨hmarked, hshallow⟩

theorem Stable.child {node child : Node} (h : Stable node) (hmem : Item.node child ∈ node) :
    Stable child := by
  obtain ⟨hmarked, hshallow⟩ := stable_iff.mp h _ hmem
  exact ⟨requoted_node.mp hmarked, Nat.le_trans hshallow (Nat.sub_le _ _)⟩

theorem mem_intercalate {sep : Text} {pieces : List Text} {c : Char}
    (h : c ∈ sep.intercalate pieces) : c ∈ sep ∨ ∃ piece ∈ pieces, c ∈ piece := by
  cases pieces with
  | nil => simp [List.intercalate] at h
  | cons first rest =>
    rw [intercalate_cons, List.mem_append, List.mem_flatMap] at h
    obtain h | ⟨piece, hpiece, h⟩ := h
    · exact Or.inr ⟨first, List.mem_cons_self, h⟩
    · obtain h | h := List.mem_append.mp h
      · exact Or.inl h
      · exact Or.inr ⟨piece, List.mem_cons_of_mem _ hpiece, h⟩

theorem return_notMem_escape (c : Char) : '\r' ∉ escape c := by
  unfold escape
  split_ifs with h1 h2 h3 h4 h5
  all_goals simp
  exact fun h => h5 h.symm

theorem return_notMem_emitAtom (a : Atom) : '\r' ∉ emitAtom a := by
  unfold emitAtom
  split
  next => simp [return_notMem_escape]
  next h =>
    simp only [needsQuoting, not_or, Bool.not_eq_true, decide_eq_true_eq] at h
    intro hmem
    have hend := List.any_eq_false.mp h.2.2 _ hmem
    exact hend rfl

theorem return_notMem_padding (indent : ℕ) : '\r' ∉ padding indent := by
  simp [padding]

theorem return_notMem_joinAtoms (atoms : List Atom) : '\r' ∉ joinAtoms atoms := by
  intro h
  obtain h | ⟨piece, hpiece, h⟩ := mem_intercalate h
  · simp at h
  · obtain ⟨a, _, rfl⟩ := List.mem_map.mp hpiece
    exact return_notMem_emitAtom a h

theorem return_notMem_node (indent : ℕ) {members : List Item}
    (h : ∀ member ∈ members, '\r' ∉ render (indent + 1) member) :
    '\r' ∉ render indent (.node members) := by
  have hpad := return_notMem_padding indent
  have hatoms := return_notMem_joinAtoms (leadingAtoms members)
  rw [render]
  split
  next => simp [hpad, hatoms]
  next =>
    intro hmem
    obtain hmem | ⟨piece, hpiece, hmem⟩ := mem_intercalate hmem
    · simp at hmem
    · rw [List.mem_cons, List.mem_append, List.mem_singleton] at hpiece
      obtain rfl | hpiece | rfl := hpiece
      · simp [hpad, hatoms] at hmem
      · have hpiece := List.mem_of_mem_drop hpiece
        rw [renderAll_eq_map] at hpiece
        obtain ⟨member, hmember, rfl⟩ := List.mem_map.mp hpiece
        exact h member hmember hmem
      · simp [hpad] at hmem

mutual

theorem return_notMem_render (indent : ℕ) : (member : Item) → '\r' ∉ render indent member
  | .atom a => by
    rw [render]
    simp [return_notMem_padding, return_notMem_emitAtom]
  | .node members =>
    return_notMem_node indent fun member hmember => return_notMem_renderAll members (indent + 1)
      member hmember

theorem return_notMem_renderAll : (members : List Item) → ∀ indent, ∀ member ∈ members,
    '\r' ∉ render indent member
  | [] => by
    intro indent member hmember
    cases hmember
  | first :: rest => by
    intro indent member hmember
    rcases List.mem_cons.mp hmember with heq | hmember
    · rw [heq]
      exact return_notMem_render indent first
    · exact return_notMem_renderAll rest indent member hmember

end

theorem return_notMem_emit (node : Node) : '\r' ∉ emit node := return_notMem_render 0 (.node node)

theorem entryName_ok :
    entryName node = .ok name ↔ ∃ a, node[1]? = some (.atom a) ∧ a.text = name := by
  rw [entryName, Outcome.orRaise_ok]
  constructor
  · intro h
    obtain ⟨item, hitem, htext⟩ := Option.bind_eq_some_iff.mp h
    cases item with
    | atom a => exact ⟨a, hitem, Option.some.inj htext⟩
    | node members => cases htext
  · rintro ⟨a, ha, rfl⟩
    rw [ha]
    rfl

theorem exists_of_entryName (h : entryName node = .ok name) :
    ∃ first a rest, node = first :: .atom a :: rest ∧ a.text = name := by
  obtain ⟨a, ha, rfl⟩ := entryName_ok.mp h
  match node, ha with
  | first :: second :: rest, ha =>
    obtain rfl := Option.some.inj ha
    exact ⟨first, a, rest, rfl, rfl⟩

theorem mem_of_mapM_named {nodes : List Node} {found : List (Text × Node)}
    (h : nodes.mapM named = .ok found) (hmem : (name, node) ∈ found) :
    node ∈ nodes ∧ entryName node = .ok name := by
  induction nodes generalizing found with
  | nil =>
    rw [List.mapM_nil, Outcome.pure_ok] at h
    subst h
    cases hmem
  | cons first rest ih =>
    rw [List.mapM_cons, Outcome.bind_ok] at h
    obtain ⟨entry, hentry, h⟩ := h
    obtain ⟨others, hothers, hret⟩ := Outcome.bind_ok.mp h
    obtain rfl := Outcome.pure_ok.mp hret
    rw [named, Outcome.bind_ok] at hentry
    obtain ⟨firstName, hname, hret⟩ := hentry
    obtain rfl := Outcome.pure_ok.mp hret
    obtain heq | hmem := List.mem_cons.mp hmem
    · obtain ⟨rfl, rfl⟩ := Prod.mk.inj heq
      exact ⟨List.mem_cons_self, hname⟩
    · obtain ⟨hin, hnamed⟩ := ih hothers hmem
      exact ⟨List.mem_cons_of_mem _ hin, hnamed⟩

theorem mem_symbolChildren {members : List Item} {child : Node} :
    child ∈ symbolChildren members ↔ Item.node child ∈ members ∧ head child = some symbolRoot := by
  rw [symbolChildren, List.mem_filter, List.mem_filterMap, decide_eq_true_eq]
  apply and_congr_left
  intro _
  constructor
  · rintro ⟨item, hitem, hnode⟩
    cases item with
    | atom a => cases hnode
    | node members =>
      obtain rfl := Option.some.inj hnode
      exact hitem
  · intro h
    exact ⟨_, h, rfl⟩

theorem entries_mem {text : Text} {found : List (Text × Node)} (h : entries text = .ok found)
    (hmem : (name, node) ∈ found) :
    entryName node = .ok name ∧ head node = some symbolRoot ∧ Stable node := by
  rw [entries, Outcome.bind_ok] at h
  obtain ⟨root, hroot, h⟩ := h
  have hstable := stable_of_parse hroot
  unfold rootEntries at h
  split at h
  next =>
    obtain ⟨hin, hname⟩ := mem_of_mapM_named h hmem
    obtain ⟨hin, hhead⟩ := mem_symbolChildren.mp hin
    exact ⟨hname, hhead, hstable.child (List.mem_of_mem_tail hin)⟩
  next =>
    split at h
    next hhead =>
      obtain ⟨entry, hentry, hret⟩ := Outcome.bind_ok.mp h
      obtain rfl := Outcome.pure_ok.mp hret
      obtain rfl := List.mem_singleton.mp hmem
      rw [named, Outcome.bind_ok] at hentry
      obtain ⟨rootName, hname, hret⟩ := hentry
      obtain ⟨rfl, rfl⟩ := Prod.mk.inj (Outcome.pure_ok.mp hret)
      exact ⟨hname, hhead, hstable⟩
    next => cases h

theorem rename_ok (h : rename node newName = .ok renamed) :
    ∃ first a rest, node = first :: .atom a :: rest ∧
      renamed = first :: quoted newName :: rest.map (renameUnit a.text newName) := by
  rw [rename, Outcome.bind_ok] at h
  obtain ⟨oldName, hname, hret⟩ := h
  obtain ⟨first, a, rest, rfl, rfl⟩ := exists_of_entryName hname
  obtain rfl := Outcome.pure_ok.mp hret
  exact ⟨first, a, rest, rfl, rfl⟩

theorem entryName_rename
    (h : rename node newName = .ok renamed) : entryName renamed = .ok newName := by
  obtain ⟨first, a, rest, rfl, rfl⟩ := rename_ok h
  exact entryName_ok.mpr ⟨⟨newName, true⟩, rfl, rfl⟩

theorem head_rename (h : rename node newName = .ok renamed) : head renamed = head node := by
  obtain ⟨first, a, rest, rfl, rfl⟩ := rename_ok h
  rfl

/-- The unit suffix of a child symbol that carries the name, and what renaming makes of it. -/
def unitSuffix? (name : Text) : Item → Option Text
  | .node (root :: unitName :: rest) =>
    if head (root :: unitName :: rest) = some symbolRoot then
      unitName.text?.bind (afterPrefix (name ++ ['_']))
    else none
  | _ => none

theorem afterPrefix_eq_some {before text suffix : Text} :
    afterPrefix before text = some suffix ↔ text = before ++ suffix := by
  rw [afterPrefix]
  split
  next h =>
    obtain ⟨tail, rfl⟩ := List.isPrefixOf_iff_prefix.mp h
    simp [eq_comm]
  next h =>
    constructor
    · intro hno
      cases hno
    · rintro rfl
      exact absurd (List.isPrefixOf_iff_prefix.mpr ⟨suffix, rfl⟩) h

theorem renameUnit_of_unitSuffix {oldName newName suffix : Text} {child : Item}
    (h : unitSuffix? oldName child = some suffix) :
    unitSuffix? newName (renameUnit oldName newName child) = some suffix := by
  match child, h with
  | .node (root :: unitName :: rest), h =>
    rw [unitSuffix?] at h
    split at h
    next hroot =>
      have hnew : renameUnit oldName newName (.node (root :: unitName :: rest)) =
          .node (root :: quoted (newName ++ '_' :: suffix) :: rest) := by
        rw [renameUnit, if_pos hroot, h]
      rw [hnew, unitSuffix?, if_pos (by exact hroot)]
      simp [quoted, Item.text?, afterPrefix_eq_some]
    next => cases h

/-- Every unit of one node that carries the old name is, at its place in the other node, a
unit with the same suffix that carries the new one. -/
def Follows (oldName : Text) (node : Node) (newName : Text) (node' : Node) : Prop :=
  ∀ (i : ℕ) (child : Item) (suffix : Text), node[i]? = some child → unitSuffix? oldName child = some suffix →
    ∃ child', node'[i]? = some child' ∧ unitSuffix? newName child' = some suffix

theorem Follows.refl (name : Text) (node : Node) : Follows name node name node :=
  fun _ child _ hchild hsuffix => ⟨child, hchild, hsuffix⟩

theorem Follows.trans {a b c : Text} {nodeA nodeB nodeC : Node} (h : Follows a nodeA b nodeB)
    (h' : Follows b nodeB c nodeC) : Follows a nodeA c nodeC := by
  intro i child suffix hchild hsuffix
  obtain ⟨child', hchild', hsuffix'⟩ := h i child suffix hchild hsuffix
  exact h' i child' suffix hchild' hsuffix'

theorem follows_rename {oldName newName root : Text}
    (hroot : head node = some root) (hname : entryName node = .ok oldName)
    (h : rename node newName = .ok renamed) : Follows oldName node newName renamed := by
  obtain ⟨first, a, rest, rfl, rfl⟩ := rename_ok h
  obtain rfl : a.text = oldName := Except.ok.inj hname
  cases first with
  | node members => cases hroot
  | atom b =>
    intro i child suffix hchild hsuffix
    match i, hchild with
    | 0, hchild =>
      obtain rfl := Option.some.inj hchild
      cases hsuffix
    | 1, hchild =>
      obtain rfl := Option.some.inj hchild
      cases hsuffix
    | i + 2, hchild =>
      refine ⟨renameUnit a.text newName child, ?_, renameUnit_of_unitSuffix hsuffix⟩
      have hrest : rest[i]? = some child := hchild
      simp [List.getElem?_map, hrest]

theorem renameUnit_members (oldName newName : Text) (child : Item) :
    renameUnit oldName newName child = child ∨ ∃ members members',
      child = .node members ∧ renameUnit oldName newName child = .node members' ∧
      ∀ member ∈ members', member ∈ members ∨ ∃ text, member = quoted text := by
  match child with
  | .atom a => exact Or.inl rfl
  | .node [] => exact Or.inl rfl
  | .node [_] => exact Or.inl rfl
  | .node (root :: name :: rest) =>
    rw [renameUnit]
    split
    next =>
      split
      next suffix _ =>
        refine Or.inr ⟨_, _, rfl, rfl, ?_⟩
        intro member hmember
        simp only [List.mem_cons] at hmember ⊢
        obtain h | h | h := hmember
        · exact Or.inl (Or.inl h)
        · exact Or.inr ⟨_, h⟩
        · exact Or.inl (Or.inr (Or.inr h))
      next => exact Or.inl rfl
    next => exact Or.inl rfl

theorem Stable.rename (h : Stable node)
    (hrename : rename node newName = .ok renamed) : Stable renamed := by
  obtain ⟨first, a, rest, rfl, rfl⟩ := rename_ok hrename
  rw [stable_iff]
  intro member hmember
  simp only [List.mem_cons, List.mem_map] at hmember
  obtain rfl | rfl | ⟨child, hchild, rfl⟩ := hmember
  · exact stable_iff.mp h _ List.mem_cons_self
  · exact ⟨requoted_quoted newName, Nat.zero_le _⟩
  · have hin : child ∈ first :: Item.atom a :: rest :=
      List.mem_cons_of_mem _ (List.mem_cons_of_mem _ hchild)
    obtain heq | ⟨members, members', rfl, heq, hmembers⟩ :=
      renameUnit_members a.text newName child
    · rw [heq]
      exact stable_iff.mp h _ hin
    · rw [heq]
      exact h.of_nested hin hmembers

theorem modelPath?_eq_some {child : Item} {path : Text} (h : modelPath? child = some path) :
    ∃ first a rest, child = .node (first :: .atom a :: rest) ∧ a.text = path := by
  match child, h with
  | .node members, h =>
    rw [modelPath?] at h
    split at h
    next =>
      obtain ⟨first, a, rest, rfl, htext⟩ := exists_of_entryName (Outcome.orRaise_ok.mpr h)
      exact ⟨first, a, rest, rfl, htext⟩
    next => cases h

def rewriteModelPath (f : Text → Option Text) (child : Item) : Option Item :=
  match modelPath? child, child with
  | some path, .node members =>
    (f path).map fun replacement =>
      .node (members.take 1 ++ quoted replacement :: members.drop 2)
  | _, _ => some child

theorem rewriteModelPaths_eq (node : Node) (f : Text → Option Text) :
    rewriteModelPaths node f = node.filterMap (rewriteModelPath f) := rfl

theorem rewriteModelPath_of_none {f : Text → Option Text} {child : Item}
    (h : modelPath? child = none) : rewriteModelPath f child = some child := by
  simp [rewriteModelPath, h]

theorem rewriteModelPath_model (f : Text → Option Text) {first : Item} {a : Atom} {rest : Node}
    (h : modelPath? (.node (first :: .atom a :: rest)) = some a.text) :
    rewriteModelPath f (.node (first :: .atom a :: rest)) =
      (f a.text).map fun path => .node (first :: quoted path :: rest) := by
  simp [rewriteModelPath, h]

theorem modelPath?_model (first : Item) (a b : Atom) (rest : Node) {path : Text}
    (h : modelPath? (.node (first :: .atom a :: rest)) = some path) :
    modelPath? (.node (first :: .atom b :: rest)) = some b.text := by
  rw [modelPath?] at h ⊢
  split at h
  next hhead =>
    rw [if_pos (by exact hhead)]
    rfl
  next => cases h

theorem rewriteModelPath_cases {f : Text → Option Text} {child member : Item}
    (h : rewriteModelPath f child = some member) :
    (modelPath? child = none ∧ member = child) ∨
      ∃ first a rest path, child = .node (first :: .atom a :: rest) ∧
        modelPath? child = some a.text ∧ f a.text = some path ∧
        member = .node (first :: quoted path :: rest) := by
  cases hpath : modelPath? child with
  | none =>
    rw [rewriteModelPath_of_none hpath] at h
    exact Or.inl ⟨rfl, (Option.some.inj h).symm⟩
  | some old =>
    obtain ⟨first, a, rest, rfl, rfl⟩ := modelPath?_eq_some hpath
    rw [rewriteModelPath_model f hpath] at h
    obtain ⟨path, hf, rfl⟩ := Option.map_eq_some_iff.mp h
    exact Or.inr ⟨first, a, rest, path, rfl, rfl, hf, rfl⟩

theorem Stable.rewriteModelPaths (h : Stable node) (f : Text → Option Text) :
    Stable (rewriteModelPaths node f) := by
  rw [rewriteModelPaths_eq, stable_iff]
  intro member hmember
  obtain ⟨child, hchild, hrewrite⟩ := List.mem_filterMap.mp hmember
  obtain ⟨_, rfl⟩ | ⟨first, a, rest, path, rfl, _, _, rfl⟩ := rewriteModelPath_cases hrewrite
  · exact stable_iff.mp h _ hchild
  · apply h.of_nested hchild
    intro member hmember
    simp only [List.mem_cons] at hmember ⊢
    obtain h | h | h := hmember
    · exact Or.inl (Or.inl h)
    · exact Or.inr ⟨path, h⟩
    · exact Or.inl (Or.inr (Or.inr h))

/-- Re-pointing the models of a footprint keeps its head and its name. -/
theorem rewriteModelPaths_named {name root : Text} (f : Text → Option Text)
    (hhead : head node = some root) (hname : entryName node = .ok name) :
    head (rewriteModelPaths node f) = some root ∧
      entryName (rewriteModelPaths node f) = .ok name := by
  obtain ⟨first, a, rest, rfl, rfl⟩ := exists_of_entryName hname
  cases first with
  | node members => cases hhead
  | atom b => exact ⟨hhead, rfl⟩

end StockManager.Sexpr
