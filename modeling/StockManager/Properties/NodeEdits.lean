import StockManager.Effects.PackageNodes

/-! # Node edits touch only what they name (domain/eda/sexpr.py) -/

namespace StockManager.Sexpr

variable {key value oldName newName : Text} {child : Item} {rest before after node : Node}

/-- `(property "key" "value")` -/
def newProperty (key value : Text) : Item := .node [bare "property", quoted key, quoted value]

/-- Where a value lands: over the value of the first property with the key, or in a new
property after the last one, and at the end of a node without properties. -/
inductive PropertySet (key value : Text) (node : Node) : Node → Prop
  | replaced (before : Node) (members after : Node)
      (hnode : node = before ++ .node members :: after)
      (hfirst : ∀ child ∈ before, isProperty key child = false)
      (hproperty : isProperty key (.node members) = true) :
      PropertySet key value node (before ++ .node (members.set 2 (quoted value)) :: after)
  | added (upTo after : Node) (last : Item)
      (hnode : node = upTo ++ last :: after)
      (hnone : ∀ child ∈ node, isProperty key child = false)
      (hlast : isPropertyNode last = true)
      (hafter : ∀ child ∈ after, isPropertyNode child = false) :
      PropertySet key value node (upTo ++ last :: newProperty key value :: after)
  | first (hnone : ∀ child ∈ node, isPropertyNode child = false) :
      PropertySet key value node (node ++ [newProperty key value])

theorem isProperty_eq_true (h : isProperty key child = true) :
    ∃ first name old rest, child = .node (first :: name :: old :: rest) ∧
      (first.text? = some "property".toList) ∧ name.text? = some key := by
  obtain ⟨members, rfl⟩ := isProperty_node h
  have hkey : propertyNamed? (.node members) = some key := of_decide_eq_true h
  rw [propertyNamed?] at hkey
  split at hkey
  next hcond =>
    obtain ⟨hhead, hlength⟩ := hcond
    obtain ⟨first, members, rfl⟩ := List.exists_cons_of_length_pos
      (Nat.lt_of_lt_of_le (by decide) hlength)
    obtain ⟨name, members, rfl⟩ := List.exists_cons_of_length_pos
      (Nat.lt_of_lt_of_le (by decide) (Nat.le_of_succ_le_succ hlength))
    obtain ⟨old, rest, rfl⟩ := List.exists_cons_of_length_pos
      (Nat.lt_of_lt_of_le (by decide) (Nat.le_of_succ_le_succ (Nat.le_of_succ_le_succ hlength)))
    exact ⟨first, name, old, rest, rfl, by simpa [head] using hhead, by simpa using hkey⟩
  next => cases hkey

theorem isProperty_of_texts {first name old : Item}
    (hfirst : first.text? = some "property".toList) (hname : name.text? = some key) :
    isProperty key (.node (first :: name :: old :: rest)) = true := by
  simp [isProperty, propertyNamed?, head, hfirst, hname]

theorem withValue_eq_set {first name old : Item} :
    withValue value (.node (first :: name :: old :: rest)) =
      .node (first :: name :: quoted value :: rest) := rfl

theorem isProperty_withValue (h : isProperty key child = true) :
    isProperty key (withValue value child) = true := by
  obtain ⟨first, name, old, rest, rfl, hfirst, hname⟩ := isProperty_eq_true h
  rw [withValue_eq_set]
  exact isProperty_of_texts hfirst hname

def valueOf (child : Item) : Option Text := (child.node?.bind (·[2]?)).bind Item.text?

theorem valueOf_withValue (h : isProperty key child = true) :
    valueOf (withValue value child) = some value := by
  obtain ⟨first, name, old, rest, rfl, _, _⟩ := isProperty_eq_true h
  rfl

theorem withValue_withValue {key first value : Text} (h : isProperty key child = true) :
    withValue value (withValue first child) = withValue value child := by
  obtain ⟨head, name, old, rest, rfl, _, _⟩ := isProperty_eq_true h
  rfl

theorem getProperty_at (hbefore : ∀ other ∈ before, isProperty key other = false)
    (hchild : isProperty key child = true) (hvalue : valueOf child = some value) :
    getProperty (before ++ child :: after) key = some value := by
  have hnone : before.findSome? (fun child =>
      if isProperty key child then (child.node?.bind (·[2]?)).bind Item.text? else none) =
        none := by
    rw [List.findSome?_eq_none_iff]
    intro other hother
    simp [hbefore other hother]
  have hsome : (if isProperty key child then (child.node?.bind (·[2]?)).bind Item.text?
      else none) = some value := by
    rw [if_pos hchild]
    exact hvalue
  rw [getProperty, List.findSome?_append, hnone, Option.none_or, List.findSome?_cons, hsome]

theorem replaceProperty_at (hbefore : ∀ other ∈ before, isProperty key other = false)
    (hchild : isProperty key child = true) :
    replaceProperty key value (before ++ child :: after) =
      some (before ++ withValue value child :: after) := by
  induction before with
  | nil => rw [List.nil_append, replaceProperty, if_pos hchild, List.nil_append]
  | cons other before ih =>
    have hother := hbefore other List.mem_cons_self
    have hrest := ih fun member hmember => hbefore member (List.mem_cons_of_mem _ hmember)
    rw [List.cons_append, replaceProperty, if_neg (by simp [hother]), hrest]
    rfl

theorem replaceProperty_none
    (h : ∀ child ∈ node, isProperty key child = false) : replaceProperty key value node = none := by
  induction node with
  | nil => rfl
  | cons child rest ih =>
    have hchild := h child List.mem_cons_self
    have hrest := ih fun member hmember => h member (List.mem_cons_of_mem _ hmember)
    rw [replaceProperty, if_neg (by simp [hchild]), hrest]
    rfl

theorem exists_first_property (key : Text) (node : Node) :
    (∀ child ∈ node, isProperty key child = false) ∨
      ∃ before child after, node = before ++ child :: after ∧ isProperty key child = true ∧
        ∀ other ∈ before, isProperty key other = false := by
  induction node with
  | nil => exact Or.inl fun child hchild => by cases hchild
  | cons first rest ih =>
    cases hfirst : isProperty key first with
    | true => exact Or.inr ⟨[], first, rest, rfl, hfirst, fun other hother => by cases hother⟩
    | false =>
      obtain hnone | ⟨before, child, after, rfl, hchild, hbefore⟩ := ih
      · exact Or.inl (List.forall_mem_cons.mpr ⟨hfirst, hnone⟩)
      · exact Or.inr ⟨first :: before, child, after, rfl, hchild,
          List.forall_mem_cons.mpr ⟨hfirst, hbefore⟩⟩

theorem setProperty_at (hbefore : ∀ other ∈ before, isProperty key other = false)
    (hchild : isProperty key child = true) :
    setProperty (before ++ child :: after) key value = before ++ withValue value child :: after := by
  rw [setProperty, replaceProperty_at hbefore hchild]

theorem isProperty_newProperty (key value : Text) : isProperty key (newProperty key value) = true :=
  isProperty_of_texts rfl rfl

theorem exists_last_property (node : Node) :
    (∀ child ∈ node, isPropertyNode child = false) ∨
      ∃ upTo last after, node = upTo ++ last :: after ∧ isPropertyNode last = true ∧
        ∀ child ∈ after, isPropertyNode child = false := by
  induction node with
  | nil => exact Or.inl fun child hchild => by cases hchild
  | cons first rest ih =>
    obtain hnone | ⟨upTo, last, after, rfl, hlast, hafter⟩ := ih
    · cases hfirst : isPropertyNode first with
      | true => exact Or.inr ⟨[], first, rest, rfl, hfirst, hnone⟩
      | false => exact Or.inl (List.forall_mem_cons.mpr ⟨hfirst, hnone⟩)
    · exact Or.inr ⟨first :: upTo, last, after, rfl, hlast, hafter⟩

theorem splitAfterProperties_at {upTo after : Node} {last : Item}
    (hlast : isPropertyNode last = true) (hafter : ∀ child ∈ after, isPropertyNode child = false) :
    splitAfterProperties (upTo ++ last :: after) = (upTo ++ [last], after) := by
  have hreverse : (upTo ++ last :: after).reverse = after.reverse ++ last :: upTo.reverse := by
    simp
  have htake : ((upTo ++ last :: after).reverse.takeWhile fun child => !isPropertyNode child) =
      after.reverse := by
    rw [hreverse, List.takeWhile_append_of_pos (by simpa using hafter)]
    simp [hlast]
  have hsplit : upTo ++ last :: after = (upTo ++ [last]) ++ after := by simp
  have hlength : (upTo ++ last :: after).length - after.length = (upTo ++ [last]).length := by
    rw [hsplit, List.length_append]
    omega
  simp only [splitAfterProperties, htake, List.reverse_reverse, hlength]
  rw [hsplit, List.take_left]

theorem isProperty_of_notNode (h : isPropertyNode child = false) :
    isProperty key child = false := by
  cases hproperty : isProperty key child with
  | false => rfl
  | true =>
    obtain ⟨first, name, old, rest, rfl, hfirst, _⟩ := isProperty_eq_true hproperty
    have hnode : isPropertyNode (.node (first :: name :: old :: rest)) = true := by
      simp [isPropertyNode, Item.node?, head, hfirst]
    rw [hnode] at h
    cases h

theorem setProperty_after {upTo after : Node} {last : Item}
    (hnone : ∀ child ∈ upTo ++ last :: after, isProperty key child = false)
    (hlast : isPropertyNode last = true) (hafter : ∀ child ∈ after, isPropertyNode child = false) :
    setProperty (upTo ++ last :: after) key value =
      upTo ++ last :: newProperty key value :: after := by
  have hany : (upTo ++ last :: after).any isPropertyNode = true := by simp [hlast]
  rw [setProperty, replaceProperty_none hnone]
  simp [splitAfterProperties_at hlast hafter, newProperty, hlast]

theorem setProperty_first (hnone : ∀ child ∈ node, isPropertyNode child = false) :
    setProperty node key value = node ++ [newProperty key value] := by
  have hany : node.any isPropertyNode = false := List.any_eq_false.mpr (by simpa using hnone)
  rw [setProperty, replaceProperty_none fun child hchild => isProperty_of_notNode (hnone child hchild)]
  simp [hany, newProperty]

theorem setProperty_set (node : Node) (key value : Text) :
    PropertySet key value node (setProperty node key value) := by
  obtain hnone | ⟨before, child, after, rfl, hchild, hbefore⟩ := exists_first_property key node
  · obtain hplain | ⟨upTo, last, after, rfl, hlast, hafter⟩ := exists_last_property node
    · rw [setProperty_first hplain]
      exact .first hplain
    · rw [setProperty_after hnone hlast hafter]
      exact .added upTo after last rfl hnone hlast hafter
  · obtain ⟨first, name, old, rest, rfl, hfirst, hname⟩ := isProperty_eq_true hchild
    rw [setProperty_at hbefore hchild]
    exact .replaced before (first :: name :: old :: rest) after rfl hbefore hchild

theorem setProperty_child (node : Node) (key value : Text) :
    ∃ before child after, setProperty node key value = before ++ child :: after ∧
      (∀ other ∈ before, isProperty key other = false) ∧ isProperty key child = true ∧
      valueOf child = some value ∧
      ∀ next, setProperty node key next = before ++ withValue next child :: after := by
  obtain hnone | ⟨before, child, after, rfl, hchild, hbefore⟩ := exists_first_property key node
  · obtain hplain | ⟨upTo, last, after, rfl, hlast, hafter⟩ := exists_last_property node
    · refine ⟨node, newProperty key value, [], setProperty_first hplain, hnone,
        isProperty_newProperty key value, rfl, ?_⟩
      intro next
      exact setProperty_first hplain
    · refine ⟨upTo ++ [last], newProperty key value, after, ?_, ?_,
        isProperty_newProperty key value, rfl, ?_⟩
      · rw [setProperty_after hnone hlast hafter, List.append_assoc, List.singleton_append]
      · intro other hother
        have hsplit : upTo ++ last :: after = (upTo ++ [last]) ++ after := by simp
        exact hnone other (hsplit ▸ List.mem_append_left _ hother)
      · intro next
        rw [setProperty_after hnone hlast hafter, List.append_assoc, List.singleton_append]
        rfl
  · refine ⟨before, withValue value child, after, setProperty_at hbefore hchild, hbefore,
      isProperty_withValue hchild, valueOf_withValue hchild, ?_⟩
    intro next
    rw [setProperty_at hbefore hchild, withValue_withValue hchild]

theorem getProperty_setProperty (node : Node) (key value : Text) :
    getProperty (setProperty node key value) key = some value := by
  obtain ⟨before, child, after, hset, hbefore, hchild, hvalue, _⟩ := setProperty_child node key value
  rw [hset]
  exact getProperty_at hbefore hchild hvalue

theorem setProperty_setProperty (node : Node) (key first value : Text) :
    setProperty (setProperty node key first) key value = setProperty node key value := by
  obtain ⟨before, child, after, hset, hbefore, hchild, _, hnext⟩ := setProperty_child node key first
  rw [hset, setProperty_at hbefore hchild, hnext value]

/-- The name of a node, read as quoted. -/
def Item.readQuoted : Item → Item
  | .atom a => quoted a.text
  | .node members => .node members

def Item.quotedName : Item → Item
  | .node (root :: unitName :: rest) => .node (root :: unitName.readQuoted :: rest)
  | child => child

/-- A unit with its name read as quoted. -/
def quotedUnit (name : Text) (child : Item) : Item :=
  if (unitSuffix? name child).isSome then child.quotedName else child

/-- A node with its own name and those of its units read as quoted. -/
def quotedNames (name : Text) (node : Node) : Node :=
  node.take 1 ++ ((node.drop 1).take 1).map Item.readQuoted ++ (node.drop 2).map (quotedUnit name)

/-- What a renaming makes of a member behind the name. -/
inductive UnitRenamed (oldName newName : Text) : Item → Item → Prop
  | unit (root : Item) (a : Atom) (suffix : Text) (rest : Node)
      (hroot : head (root :: .atom a :: rest) = some symbolRoot)
      (hname : a.text = oldName ++ '_' :: suffix) :
      UnitRenamed oldName newName (.node (root :: .atom a :: rest))
        (.node (root :: quoted (newName ++ '_' :: suffix) :: rest))
  | other (child : Item) (hother : unitSuffix? oldName child = none) :
      UnitRenamed oldName newName child child

theorem unitSuffix?_eq_some {name suffix : Text} (h : unitSuffix? name child = some suffix) :
    ∃ root a rest, child = .node (root :: .atom a :: rest) ∧
      head (root :: .atom a :: rest) = some symbolRoot ∧ a.text = name ++ '_' :: suffix := by
  match child, h with
  | .node (root :: unitName :: rest), h =>
    rw [unitSuffix?] at h
    split at h
    next hroot =>
      obtain ⟨text, htext, hafter⟩ := Option.bind_eq_some_iff.mp h
      cases unitName with
      | node members => cases htext
      | atom a =>
        obtain rfl := Option.some.inj htext
        have hname := afterPrefix_eq_some.mp hafter
        exact ⟨root, a, rest, rfl, hroot, by simpa using hname⟩
    next => cases h

theorem renameUnit_none
    (h : unitSuffix? oldName child = none) : renameUnit oldName newName child = child := by
  match child, h with
  | .atom a, _ => rfl
  | .node [], _ => rfl
  | .node [_], _ => rfl
  | .node (root :: unitName :: rest), h =>
    rw [unitSuffix?] at h
    rw [renameUnit]
    split at h
    next hroot => rw [if_pos hroot, h]
    next hroot => rw [if_neg hroot]

theorem renameUnit_unit {oldName newName suffix : Text} {root : Item} {a : Atom}
    (hroot : head (root :: .atom a :: rest) = some symbolRoot)
    (hname : a.text = oldName ++ '_' :: suffix) :
    renameUnit oldName newName (.node (root :: .atom a :: rest)) =
      .node (root :: quoted (newName ++ '_' :: suffix) :: rest) := by
  have hafter : (Item.atom a).text?.bind (afterPrefix (oldName ++ ['_'])) = some suffix := by
    show afterPrefix (oldName ++ ['_']) a.text = some suffix
    rw [afterPrefix_eq_some, hname, List.append_assoc, List.singleton_append]
  rw [renameUnit, if_pos hroot, hafter]

theorem renameUnit_renamed (oldName newName : Text) (child : Item) :
    UnitRenamed oldName newName child (renameUnit oldName newName child) := by
  cases hsuffix : unitSuffix? oldName child with
  | none =>
    rw [renameUnit_none hsuffix]
    exact .other child hsuffix
  | some suffix =>
    obtain ⟨root, a, rest, rfl, hroot, hname⟩ := unitSuffix?_eq_some hsuffix
    rw [renameUnit_unit hroot hname]
    exact .unit root a suffix rest hroot hname

theorem renameUnit_back (h : unitSuffix? oldName child = none → unitSuffix? newName child = none) :
    renameUnit newName oldName (renameUnit oldName newName child) = quotedUnit oldName child := by
  cases hsuffix : unitSuffix? oldName child with
  | none =>
    rw [renameUnit_none hsuffix, renameUnit_none (h hsuffix), quotedUnit,
      if_neg (by simp [hsuffix])]
  | some suffix =>
    obtain ⟨root, a, rest, rfl, hroot, hname⟩ := unitSuffix?_eq_some hsuffix
    have hback : renameUnit newName oldName
        (.node (root :: .atom ⟨newName ++ '_' :: suffix, true⟩ :: rest)) =
          .node (root :: quoted (oldName ++ '_' :: suffix) :: rest) :=
      renameUnit_unit hroot rfl
    rw [renameUnit_unit hroot hname, quotedUnit, if_pos (by simp [hsuffix])]
    rw [← hname] at hback
    exact hback

/-- What a renaming makes of a node: its first member stays, the name is replaced, and the
members behind are units of the old name, renamed, or stay. -/
structure Renamed (oldName newName : Text) (node renamed : Node) : Prop where
  named : renamed[1]? = some (quoted newName)
  head : renamed[0]? = node[0]?
  members : List.Forall₂ (UnitRenamed oldName newName) (node.drop 2) (renamed.drop 2)

theorem exists_rename (newName : Text)
    (hname : entryName node = .ok oldName) : ∃ renamed, rename node newName = .ok renamed := by
  rw [rename, hname]
  exact ⟨_, rfl⟩

theorem renamed_of_rename {node renamed : Node}
    (hname : entryName node = .ok oldName) (h : rename node newName = .ok renamed) :
    Renamed oldName newName node renamed := by
  obtain ⟨first, a, rest, rfl, rfl⟩ := rename_ok h
  obtain rfl : a.text = oldName := Except.ok.inj hname
  refine ⟨rfl, rfl, ?_⟩
  show List.Forall₂ _ rest (rest.map (renameUnit a.text newName))
  rw [List.forall₂_map_right_iff, List.forall₂_same]
  intro child _
  exact renameUnit_renamed a.text newName child

theorem rename_back {node renamed : Node}
    (hname : entryName node = .ok oldName) (h : rename node newName = .ok renamed)
    (hothers : ∀ child ∈ node.drop 2, unitSuffix? oldName child = none →
      unitSuffix? newName child = none) :
    rename renamed oldName = .ok (quotedNames oldName node) := by
  obtain ⟨first, a, rest, rfl, rfl⟩ := rename_ok h
  obtain rfl : a.text = oldName := Except.ok.inj hname
  have hmembers : (rest.map (renameUnit a.text newName)).map (renameUnit newName a.text) =
      rest.map (quotedUnit a.text) := by
    rw [List.map_map]
    apply List.map_congr_left
    intro child hchild
    exact renameUnit_back (hothers child hchild)
  show Except.ok (first :: quoted a.text ::
    (rest.map (renameUnit a.text newName)).map (renameUnit newName a.text)) = _
  rw [hmembers]
  rfl

/-- Every member behaves on its own: a model with a path the function gives is re-pointed, one
without is dropped, any other member stays. -/
inductive Repointed (f : Text → Option Text) : Node → Node → Prop
  | nil : Repointed f [] []
  | other {child : Item} {node node' : Node} (hother : modelPath? child = none)
      (h : Repointed f node node') : Repointed f (child :: node) (child :: node')
  | dropped {child : Item} {path : Text} {node node' : Node}
      (hmodel : modelPath? child = some path) (hdropped : f path = none)
      (h : Repointed f node node') : Repointed f (child :: node) node'
  | repointed {first : Item} {a : Atom} {rest : Node} {path : Text} {node node' : Node}
      (hmodel : modelPath? (.node (first :: .atom a :: rest)) = some a.text)
      (hpath : f a.text = some path) (h : Repointed f node node') :
      Repointed f (.node (first :: .atom a :: rest) :: node)
        (.node (first :: quoted path :: rest) :: node')

theorem repointed_rewriteModelPaths (f : Text → Option Text) (node : Node) :
    Repointed f node (rewriteModelPaths node f) := by
  rw [rewriteModelPaths_eq]
  induction node with
  | nil => exact .nil
  | cons child node ih =>
    cases hpath : modelPath? child with
    | none =>
      rw [List.filterMap_cons_some (rewriteModelPath_of_none hpath)]
      exact .other hpath ih
    | some old =>
      obtain ⟨first, a, rest, rfl, rfl⟩ := modelPath?_eq_some hpath
      have hmember := rewriteModelPath_model f hpath
      cases hf : f a.text with
      | none =>
        rw [hf] at hmember
        rw [List.filterMap_cons_none hmember]
        exact .dropped hpath hf ih
      | some path =>
        rw [hf] at hmember
        rw [List.filterMap_cons_some hmember]
        exact .repointed hpath hf ih

/-- **Node edits touch only what they name.** -/
theorem edits_local (node : Node) :
    (∀ key value : Text, PropertySet key value node (setProperty node key value) ∧
      getProperty (setProperty node key value) key = some value ∧
      ∀ first, setProperty (setProperty node key first) key value = setProperty node key value) ∧
    (∀ oldName newName, entryName node = .ok oldName → ∃ renamed,
      rename node newName = .ok renamed ∧ Renamed oldName newName node renamed ∧
      ((∀ child ∈ node.drop 2, unitSuffix? oldName child = none →
          unitSuffix? newName child = none) →
        rename renamed oldName = .ok (quotedNames oldName node))) ∧
    (∀ f : Text → Option Text, Repointed f node (rewriteModelPaths node f) ∧
      modelPaths (rewriteModelPaths node f) = (modelPaths node).filterMap f) := by
  refine ⟨?_, ?_, ?_⟩
  · intro key value
    exact ⟨setProperty_set node key value, getProperty_setProperty node key value,
      fun first => setProperty_setProperty node key first value⟩
  · intro oldName newName hname
    obtain ⟨renamed, hrename⟩ := exists_rename newName hname
    exact ⟨renamed, hrename, renamed_of_rename hname hrename, rename_back hname hrename⟩
  · intro f
    exact ⟨repointed_rewriteModelPaths f node, modelPaths_rewriteModelPaths node f⟩

end StockManager.Sexpr
