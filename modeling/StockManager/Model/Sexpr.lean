import Mathlib
import StockManager.Library.Outcome

/-! # S-expressions of KiCad library files (domain/eda/sexpr.py) -/

namespace StockManager.Sexpr

abbrev Text : Type := List Char

theorem lawfulBEq_text : LawfulBEq Text := inferInstance

instance (t : Text) (texts : List Text) : Decidable (t ∈ texts) :=
  @List.instDecidableMemOfLawfulBEq Text _ lawfulBEq_text t texts

/-- A token; `quoted` records that it was written as `"…"`. -/
structure Atom where
  text : Text
  quoted : Bool
  deriving DecidableEq

inductive Item
  | atom (a : Atom)
  | node (members : List Item)

/-- A node: its atoms and nested nodes. -/
abbrev Node : Type := List Item

structure SexprError where
  message : String
  deriving DecidableEq

def quoted (text : Text) : Item := .atom ⟨text, true⟩

def bare (text : String) : Item := .atom ⟨text.toList, false⟩

def maxDepth : ℕ := 32

/-- `_WHITESPACE` -/
def isWhitespace (c : Char) : Bool := c ∈ [' ', '\t', '\r', '\n']

/-- `_ATOM_END` -/
def isAtomEnd (c : Char) : Bool := c ∈ [' ', '\t', '\r', '\n', '(', ')', '"']

def unescape : Char → Option Char
  | 'n' => some '\n'
  | 't' => some '\t'
  | 'r' => some '\r'
  | '"' => some '"'
  | '\\' => some '\\'
  | _ => none

/-- `_ESCAPE.get(c, c)` -/
def escape (c : Char) : Text :=
  if c = '\\' then ['\\', '\\']
  else if c = '"' then ['\\', '"']
  else if c = '\n' then ['\\', 'n']
  else if c = '\t' then ['\\', 't']
  else if c = '\r' then ['\\', 'r']
  else [c]

/-! ### Reading -/

/-- `_read_quoted`, from just past the opening quote: the value and what follows the
closing quote. -/
def readQuoted : Text → Except SexprError (Text × Text)
  | [] => .error ⟨"unterminated string"⟩
  | ch :: rest =>
    if ch = '\\' then
      match rest with
      | [] => .error ⟨"unterminated escape sequence"⟩
      | next :: rest =>
        -- an unrecognised escape keeps both characters
        (readQuoted rest).map fun (value, after) =>
          (((unescape next).elim ['\\', next] fun c => [c]) ++ value, after)
    else if ch = '"' then .ok ([], rest)
    else (readQuoted rest).map fun (value, after) => (ch :: value, after)

theorem readQuoted_escape (next : Char) (rest : Text) :
    readQuoted ('\\' :: next :: rest) = (readQuoted rest).map fun (value, after) =>
      (((unescape next).elim ['\\', next] fun c => [c]) ++ value, after) := by
  rw [readQuoted, if_pos rfl]

theorem readQuoted_quote (rest : Text) : readQuoted ('"' :: rest) = .ok ([], rest) := by
  rw [readQuoted.eq_def]
  simp

theorem readQuoted_char {ch : Char} (hescape : ch ≠ '\\') (hquote : ch ≠ '"') (rest : Text) :
    readQuoted (ch :: rest) = (readQuoted rest).map fun (value, after) => (ch :: value, after) := by
  rw [readQuoted.eq_def]
  simp [hescape, hquote]

theorem readQuoted_length {text value after : Text} (h : readQuoted text = .ok (value, after)) :
    after.length < text.length := by
  induction text using readQuoted.induct generalizing value with
  | case1 => cases h
  | case2 =>
    simp [readQuoted] at h
  | case3 next rest ih =>
    rw [readQuoted_escape, Outcome.map_ok] at h
    obtain ⟨read, hread, heq⟩ := h
    obtain ⟨_, rfl⟩ := Prod.mk.inj heq
    have hlt := ih hread
    simp only [List.length_cons]
    omega
  | case4 rest _ =>
    rw [readQuoted_quote] at h
    cases h
    simp only [List.length_cons]
    omega
  | case5 ch rest hescape hquote ih =>
    rw [readQuoted_char hescape hquote, Outcome.map_ok] at h
    obtain ⟨read, hread, heq⟩ := h
    obtain ⟨_, rfl⟩ := Prod.mk.inj heq
    have hlt := ih hread
    simp only [List.length_cons]
    omega

/-- The loop of `parse` over what is left of the text, with `limit` for `_MAX_DEPTH`. A node
is put into its parent when it is closed, and is the root when nothing is left on the stack. -/
def parseFrom (limit : ℕ) (text : Text) (stack : List Node) (root : Option Node) :
    Except SexprError Node :=
  match text with
  | [] =>
    if stack ≠ [] then .error ⟨"unbalanced '('"⟩
    else match root with
      | none => .error ⟨"empty document"⟩
      | some node => .ok node
  | ch :: rest =>
    if isWhitespace ch then parseFrom limit rest stack root
    else if ch = '(' then
      if stack = [] ∧ root.isSome then .error ⟨"unexpected second top-level expression"⟩
      else if limit < stack.length + 1 then
        .error ⟨s!"nesting deeper than {limit} levels"⟩
      else parseFrom limit rest ([] :: stack) root
    else if ch = ')' then
      match stack with
      | [] => .error ⟨"unbalanced ')'"⟩
      | [node] => parseFrom limit rest [] (some node)
      | node :: parent :: below => parseFrom limit rest ((parent ++ [.node node]) :: below) root
    else if ch = '"' then
      match _hread : readQuoted rest with
      | .error e => .error e
      | .ok (value, after) =>
        match stack with
        | [] => .error ⟨"string outside of an expression"⟩
        | node :: below => parseFrom limit after ((node ++ [quoted value]) :: below) root
    else
      let atom := ch :: rest.takeWhile fun c => !isAtomEnd c
      match stack with
      | [] => .error ⟨"atom outside of an expression"⟩
      | node :: below =>
        parseFrom limit (rest.dropWhile fun c => !isAtomEnd c)
          ((node ++ [.atom ⟨atom, false⟩]) :: below) root
termination_by text.length
decreasing_by
  all_goals simp only [List.length_cons]
  · omega
  · omega
  · omega
  · omega
  · have hlt := readQuoted_length _hread
    omega
  · have hle := (List.dropWhile_suffix (l := rest) fun c => !isAtomEnd c).length_le
    omega

def parse (text : Text) : Except SexprError Node := parseFrom maxDepth text [] none

/-! ### Writing -/

/-- An atom that would not read back as one token. -/
def needsQuoting (text : Text) : Bool := text = [] ∨ text.any isAtomEnd

def emitAtom (atom : Atom) : Text :=
  if atom.quoted ∨ needsQuoting atom.text then '"' :: (atom.text.flatMap escape ++ ['"'])
  else atom.text

def Item.atom? : Item → Option Atom
  | .atom a => some a
  | .node _ => none

/-- The members before the first nested node. -/
def leadingAtoms (members : List Item) : List Atom :=
  (members.takeWhile fun member => member.atom?.isSome).filterMap Item.atom?

def joinAtoms (atoms : List Atom) : Text := [' '].intercalate (atoms.map emitAtom)

/-- `"  " * indent` -/
def padding (indent : ℕ) : Text := List.replicate (2 * indent) ' '

mutual

def render (indent : ℕ) : Item → Text
  | .atom a => padding indent ++ emitAtom a
  | .node members =>
    if members.all fun member => member.atom?.isSome then
      padding indent ++ '(' :: (joinAtoms (leadingAtoms members) ++ [')'])
    else
      let opening := padding indent ++ '(' :: joinAtoms (leadingAtoms members)
      let lines := opening ::
        ((renderAll (indent + 1) members).drop (leadingAtoms members).length ++
          [padding indent ++ [')']])
      ['\n'].intercalate lines

def renderAll (indent : ℕ) : List Item → List Text
  | [] => []
  | member :: rest => render indent member :: renderAll indent rest

end

def emit (node : Node) : Text := render 0 (.node node)

/-! ### Library entries -/

def Item.text? : Item → Option Text
  | .atom a => some a.text
  | .node _ => none

def Item.node? : Item → Option Node
  | .atom _ => none
  | .node members => some members

def head (node : Node) : Option Text := node.head?.bind Item.text?

def symbolLibRoot : Text := "kicad_symbol_lib".toList

def symbolRoot : Text := "symbol".toList

def footprintRoots : List Text := ["footprint".toList, "module".toList]

/-- How a missing head token shows in a message. -/
def headStr (node : Node) : String := ((head node).map String.ofList).getD "None"

def entryName (node : Node) : Except SexprError Text :=
  Outcome.orRaise (node[1]?.bind Item.text?) ⟨s!"({headStr node} …) has no name argument"⟩

/-- The direct children that are symbols. -/
def symbolChildren (members : List Item) : List Node :=
  (members.filterMap Item.node?).filter fun child => head child = some symbolRoot

def named (node : Node) : Except SexprError (Text × Node) := do
  let name ← entryName node
  return (name, node)

/-- The entries of a parsed document. -/
def rootEntries (root : Node) : Except SexprError (List (Text × Node)) :=
  if head root = some symbolLibRoot then (symbolChildren root.tail).mapM named
  else if head root = some symbolRoot then do
    let entry ← named root
    return [entry]
  else .error ⟨s!"expected a (kicad_symbol_lib …) or (symbol …) document, got ({headStr root} …)"⟩

def entries (libtext : Text) : Except SexprError (List (Text × Node)) := do
  let root ← parse libtext
  rootEntries root

/-- What follows `before` in a text that starts with it. -/
def afterPrefix (before text : Text) : Option Text :=
  if before.isPrefixOf text then some (text.drop before.length) else none

/-- A unit symbol's name follows its parent's. -/
def renameUnit (oldName newName : Text) (child : Item) : Item :=
  match child with
  | .node (root :: name :: rest) =>
    if head (root :: name :: rest) = some symbolRoot then
      match name.text?.bind (afterPrefix (oldName ++ ['_'])) with
      | some suffix => .node (root :: quoted (newName ++ '_' :: suffix) :: rest)
      | none => child
    else child
  | _ => child

def rename (node : Node) (newName : Text) : Except SexprError Node := do
  let oldName ← entryName node
  return node.take 1 ++ quoted newName :: (node.drop 2).map (renameUnit oldName newName)

/-! ### Properties -/

/-- `_is_property`, with the key left open. -/
def propertyNamed? : Item → Option Text
  | .atom _ => none
  | .node members =>
    if head members = some "property".toList ∧ 3 ≤ members.length then
      members[1]?.bind Item.text?
    else none

def isProperty (key : Text) (child : Item) : Bool := propertyNamed? child = some key

def getProperty (node : Node) (key : Text) : Option Text :=
  node.findSome? fun child =>
    if isProperty key child then (child.node?.bind (·[2]?)).bind Item.text? else none

/-- The child with its value written over. -/
def withValue (value : Text) : Item → Item
  | .atom a => .atom a
  | .node members => .node (members.take 2 ++ quoted value :: members.drop 3)

/-- Write over the first property with the key. -/
def replaceProperty (key value : Text) : List Item → Option (List Item)
  | [] => none
  | child :: rest =>
    if isProperty key child then some (withValue value child :: rest)
    else (replaceProperty key value rest).map (child :: ·)

def isPropertyNode (child : Item) : Bool := child.node?.bind head = some "property".toList

/-- The members up to the last property, and those after it. -/
def splitAfterProperties (node : Node) : Node × Node :=
  let after := (node.reverse.takeWhile fun child => !isPropertyNode child).reverse
  (node.take (node.length - after.length), after)

def setProperty (node : Node) (key value : Text) : Node :=
  match replaceProperty key value node with
  | some replaced => replaced
  | none =>
    let added : Item := .node [bare "property", quoted key, quoted value]
    let (upTo, after) := splitAfterProperties node
    if node.any isPropertyNode then upTo ++ added :: after else node ++ [added]

/-! ### 3D models -/

/-- `_is_model`, with its path. -/
def modelPath? : Item → Option Text
  | .atom _ => none
  | .node members =>
    if head members = some "model".toList then members[1]?.bind Item.text? else none

def modelPaths (node : Node) : List Text := node.filterMap modelPath?

/-- A path the function gives up drops its node. -/
def rewriteModelPaths (node : Node) (f : Text → Option Text) : Node :=
  node.filterMap fun child =>
    match modelPath? child, child with
    | some path, .node members =>
      (f path).map fun replacement =>
        .node (members.take 1 ++ quoted replacement :: members.drop 2)
    | _, _ => some child

/-- `(name (xyz x x x))` -/
def xyz (name x : String) : Item := .node [bare name, .node [bare "xyz", bare x, bare x, bare x]]

def appendModel (node : Node) (path : Text) : Node :=
  node ++ [.node [bare "model", quoted path, xyz "offset" "0", xyz "scale" "1", xyz "rotate" "0"]]

end StockManager.Sexpr
