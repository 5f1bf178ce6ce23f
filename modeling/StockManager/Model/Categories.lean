import Mathlib.Data.String.Basic
import StockManager.Library.DepthFirst
import StockManager.Model.Budget

/-! # Categories (domain/categories/tree.py, service.py) -/

namespace StockManager.Categories

open DepthFirst (unmet unmet_le unmet_lt unmet_add_le)

structure PartCategory where
  id : Uuid
  name : String
  sortOrder : ℤ
  parentId : Option Uuid
  archivedAt : Option Timestamp
  deriving DecidableEq

/-- `dict[UUID, UUID | None]` -/
abbrev ParentMap := List (Uuid × Option Uuid)

def ParentMap.get (parentMap : ParentMap) (id : Uuid) : Option Uuid := (Dict.find id parentMap).join

def loadParentMap (rows : List PartCategory) : ParentMap := rows.map fun row => (row.id, row.parentId)

/-! ### Walks over the parent map -/

theorem ParentMap.get_of_not_mem {parentMap : ParentMap} {id : Uuid} (h : id ∉ Dict.keys parentMap) :
    parentMap.get id = none := by
  rw [ParentMap.get, Dict.find_eq_none.mpr h]
  rfl

/-- The loop of `ancestor_ids` -/
def ancestorsFrom (parentMap : ParentMap) : Option Uuid → List Uuid → List Uuid
  | none, _ => []
  | some current, seen =>
    if current ∈ seen then []
    else current :: ancestorsFrom parentMap (parentMap.get current) (current :: seen)
termination_by current seen => 2 * unmet (Dict.keys parentMap) seen + current.toList.length
decreasing_by
  have hsub : seen ⊆ current :: seen := List.subset_cons_self _ _
  by_cases hkey : current ∈ Dict.keys parentMap
  · have hlt := unmet_lt hkey ‹_› (List.mem_cons_self (l := seen)) hsub
    have hone : (parentMap.get current).toList.length ≤ 1 := by
      cases parentMap.get current <;> simp
    omega
  · have hle : unmet (Dict.keys parentMap) (current :: seen) ≤ unmet (Dict.keys parentMap) seen :=
      unmet_le hsub
    simp only [ParentMap.get_of_not_mem hkey, Option.toList_none, Option.toList_some,
      List.length_nil, List.length_singleton]
    omega

def ancestorIds (parentMap : ParentMap) (categoryId : Uuid) : List Uuid :=
  ancestorsFrom parentMap (parentMap.get categoryId) [categoryId]

def depthOf (parentMap : ParentMap) (categoryId : Uuid) : ℕ :=
  1 + (ancestorIds parentMap categoryId).length

/-- `_children_map`, for one node -/
def childrenIn (parentMap : ParentMap) (node : Uuid) : List Uuid :=
  (parentMap.filter fun item => item.2 = some node).map Prod.fst

/-- The children that are not in `out` yet. -/
def newChildren (out : List Uuid) : List Uuid → List Uuid
  | [] => []
  | child :: children =>
    if child ∈ out then newChildren out children
    else child :: newChildren (child :: out) children

theorem newChildren_spec (out children : List Uuid) : (newChildren out children).Nodup ∧
    ∀ child, child ∈ newChildren out children ↔ child ∈ children ∧ child ∉ out := by
  induction children generalizing out with
  | nil => simp [newChildren]
  | cons first children ih =>
    by_cases hfirst : first ∈ out
    · rw [newChildren, if_pos hfirst]
      refine ⟨(ih out).1, fun child => ?_⟩
      rw [(ih out).2, List.mem_cons]
      exact ⟨fun h => ⟨.inr h.1, h.2⟩, fun h => ⟨h.1.resolve_left fun heq => h.2 (heq ▸ hfirst), h.2⟩⟩
    · rw [newChildren, if_neg hfirst, List.nodup_cons]
      refine ⟨⟨fun hmem => ?_, (ih _).1⟩, fun child => ?_⟩
      · exact ((ih _).2 first |>.mp hmem).2 List.mem_cons_self
      · rw [List.mem_cons, (ih _).2, List.mem_cons, List.mem_cons, not_or]
        by_cases heq : child = first
        · simp [heq, hfirst]
        · simp [heq]

theorem mem_childrenIn {parentMap : ParentMap} {node child : Uuid} :
    child ∈ childrenIn parentMap node ↔ (child, some node) ∈ parentMap := by
  simp [childrenIn]

theorem mem_keys_of_mem_childrenIn {parentMap : ParentMap} {node child : Uuid}
    (h : child ∈ childrenIn parentMap node) : child ∈ Dict.keys parentMap :=
  List.mem_map.mpr ⟨_, mem_childrenIn.mp h, rfl⟩

/-- The loop of `descendant_ids` over its queue -/
def descendantsFrom (parentMap : ParentMap) : List Uuid → List Uuid → List Uuid
  | [], out => out
  | node :: queue, out =>
    descendantsFrom parentMap (queue ++ newChildren out (childrenIn parentMap node))
      (out ++ newChildren out (childrenIn parentMap node))
termination_by queue out => 2 * unmet (Dict.keys parentMap) out + queue.length
decreasing_by
  have hspec := newChildren_spec out (childrenIn parentMap node)
  have hle := @unmet_add_le _ _ (Dict.keys parentMap) out _ hspec.1
    (fun x hx => mem_keys_of_mem_childrenIn ((hspec.2 x).mp hx).1) fun x hx => ((hspec.2 x).mp hx).2
  rw [List.length_append, List.length_cons]
  omega

def descendantIds (parentMap : ParentMap) (categoryId : Uuid) : List Uuid :=
  descendantsFrom parentMap [categoryId] [categoryId]

/-- `next_level` of `subtree_height` -/
def nextLevel (parentMap : ParentMap) (level seen : List Uuid) : List Uuid :=
  (level.flatMap (childrenIn parentMap)).filter fun child => child ∉ seen

theorem mem_nextLevel {parentMap : ParentMap} {level seen : List Uuid} {child : Uuid} :
    child ∈ nextLevel parentMap level seen ↔
      (∃ node ∈ level, child ∈ childrenIn parentMap node) ∧ child ∉ seen := by
  simp [nextLevel]

/-- The loop of `subtree_height` -/
def levelsBelow (parentMap : ParentMap) (level seen : List Uuid) : ℕ :=
  if nextLevel parentMap level seen = [] then 0
  else levelsBelow parentMap (nextLevel parentMap level seen)
    (seen ++ nextLevel parentMap level seen) + 1
termination_by unmet (Dict.keys parentMap) seen
decreasing_by
  obtain ⟨child, hchild⟩ := List.exists_mem_of_ne_nil _ ‹_›
  obtain ⟨⟨node, _, hnode⟩, hnew⟩ := mem_nextLevel.mp hchild
  exact unmet_lt (mem_keys_of_mem_childrenIn hnode) hnew (List.mem_append.mpr (.inr hchild))
    (List.subset_append_left _ _)

def subtreeHeight (parentMap : ParentMap) (categoryId : Uuid) : ℕ :=
  levelsBelow parentMap [categoryId] [categoryId]

/-! ### `tree_paths` -/

/-- `category.parent_id if category.parent_id in by_id else None` -/
def listedParent (categories : List PartCategory) (category : PartCategory) : Option Uuid :=
  category.parentId.filter fun parent => parent ∈ categories.map (·.id)

def siblingKey (category : PartCategory) : ℤ ×ₗ String := toLex (category.sortOrder, category.name)

def sortSiblings (categories : List PartCategory) : List PartCategory :=
  categories.mergeSort fun a b => siblingKey a ≤ siblingKey b

/-- `children[parent]`, sorted -/
def childrenOf (categories : List PartCategory) (parent : Option Uuid) : List PartCategory :=
  sortSiblings (categories.filter fun category => listedParent categories category = parent)

/-- An item of the stack is a category with the text before its name. -/
def pathGraph (categories : List PartCategory) (separator : String) :
    DepthFirst.Graph Uuid (PartCategory × String) where
  keys := categories.map (·.id)
  key item := item.1.id
  children item := (childrenOf categories (some item.1.id)).map fun child =>
    (child, item.2 ++ item.1.name ++ separator)
  leaf item h := by
    have hnone : categories.filter (fun category =>
        listedParent categories category = some item.1.id) = [] := by
      refine List.filter_eq_nil_iff.mpr fun category _ heq => h ?_
      have hlisted := Option.mem_filter_iff.mp (of_decide_eq_true heq)
      exact of_decide_eq_true hlisted.2
    rw [childrenOf, hnone, sortSiblings, List.mergeSort_nil, List.map_nil]

/-- What the walk from the roots does not reach comes last, under its own name. -/
def treePaths (categories : List PartCategory) (separator : String) :
    List (PartCategory × String) :=
  let walked := (pathGraph categories separator).walk
    ((childrenOf categories none).map fun category => (category, "")) []
  walked.map (fun item => (item.1, item.2 ++ item.1.name)) ++
    (sortSiblings (categories.filter fun category => category.id ∉ walked.map (·.1.id))).map
      fun category => (category, category.name)

/-! ### Name paths -/

def pathSeparator : String := " / "

/-- The active categories of each parent, in listing order, and every category's path. -/
structure CategoryIndex where
  activeChildren : Option Uuid → List PartCategory
  paths : List (Uuid × String)

/-- `category_index`, of the workspace's rows in listing order -/
def categoryIndex (rows : List PartCategory) : CategoryIndex where
  activeChildren parent := rows.filter fun row => row.archivedAt = none ∧ row.parentId = parent
  paths := (treePaths rows pathSeparator).foldl (fun paths item => Dict.put item.1.id item.2 paths) []

/-- The segments between slashes, stripped; blank ones are dropped. -/
def splitCategoryPath (path : Option String) : List String :=
  (((path.getD "").toList.splitOn '/').map fun segment => strip (String.ofList segment)).filter
    (· ≠ "")

def categoryNamePath (index : CategoryIndex) (categoryId : Option Uuid) : Option String :=
  categoryId.bind fun id => Dict.find id index.paths

/-- `str.casefold()` folds each character by itself; a slash and white space fold to themselves,
and nothing else folds to them. -/
structure Casefold where
  fold : Char → List Char
  fold_ne_nil : ∀ c, fold c ≠ []
  fold_slash : ∀ c, '/' ∈ fold c ↔ c = '/'
  fold_space : ∀ c, isSpace c = true → fold c = [c]
  fold_word : ∀ c, isSpace c = false → ∀ d ∈ fold c, isSpace d = false

def Casefold.text (py : Casefold) (s : String) : String := String.ofList (s.toList.flatMap py.fold)

section Casefold

variable (py : Casefold)

/-- The loop of `_match`: an exact name at once, else the first name that folds to the same. -/
def matchFrom (segment : String) (fallback : Option PartCategory) :
    List PartCategory → Option PartCategory
  | [] => fallback
  | row :: siblings =>
    if row.name = segment then some row
    else if fallback = none ∧ py.text row.name = py.text segment then
      matchFrom segment (some row) siblings
    else matchFrom segment fallback siblings

/-- The loop of `_walk` -/
def walkFrom (children : Option Uuid → List PartCategory) (node : Option PartCategory) :
    List String → Option PartCategory
  | [] => node
  | segment :: segments =>
    (matchFrom py segment none (children (node.map (·.id)))).bind fun found =>
      walkFrom children (some found) segments

def resolveCategoryPath (index : CategoryIndex) (path : Option String) : Option PartCategory :=
  walkFrom py index.activeChildren none (splitCategoryPath path)

end Casefold

end StockManager.Categories

/-! ## Settings that categories inherit (eda/kicad_specs.py, parts/naming.py,
parts/services/spec_columns.py)

`None` in a column means that the category takes the setting of an ancestor. -/

namespace StockManager.CategorySettings

open Categories (PartCategory ParentMap ancestorIds)
open DepthFirst (unmet unmet_le unmet_lt)

/-- A JSONB value: a list, with each item as `str` shows it, or anything else -/
inductive JsonValue
  | list (items : List String)
  | other (text : String)
  deriving DecidableEq

structure CategoryRow extends PartCategory where
  workspaceId : Uuid
  refdesPrefix : Option String
  valueTemplate : Option String
  kicadFields : Option JsonValue
  listColumns : Option JsonValue
  listSort : Option JsonValue
  deriving DecidableEq

/-- `{key(row): value(row) for row in rows}` -/
def dictOf {ν : Type} (value : CategoryRow → ν) (rows : List CategoryRow) : List (Uuid × ν) :=
  rows.foldl (fun d row => Dict.put row.id (value row) d) []

/-- The active rows of the workspace, from the caller's snapshot or else from the table -/
def activeRows (db : List CategoryRow) (workspaceId : Uuid) (rows : Option (List CategoryRow)) :
    List CategoryRow :=
  (rows.getD db).filter fun row => row.workspaceId = workspaceId ∧ row.archivedAt = none

/-! ### kicad_specs.py -/

structure CategoryRules where
  valueTemplate : Option String
  kicadFields : Option (List String)
  deriving DecidableEq

def CategoryRules.complete (rules : CategoryRules) : Bool :=
  rules.valueTemplate.isSome && rules.kicadFields.isSome

def fieldList : Option JsonValue → Option (List String)
  | some (.list items) => some items
  | some (.other _) => none
  | none => none

def ownRules (category : CategoryRow) : CategoryRules :=
  ⟨category.valueTemplate, fieldList category.kicadFields⟩

/-- The loop of `_inherited`; it stops at an ancestor that is not loaded. -/
def inheritedFrom (ancestors : List (Uuid × CategoryRules)) (rules : CategoryRules) :
    List Uuid → CategoryRules
  | [] => rules
  | ancestorId :: rest =>
    match Dict.find ancestorId ancestors with
    | none => rules
    | some inherited =>
      let filled : CategoryRules :=
        ⟨rules.valueTemplate.or inherited.valueTemplate, rules.kicadFields.or inherited.kicadFields⟩
      if filled.complete then filled else inheritedFrom ancestors filled rest

def inherited (categoryId : Uuid) (rules : CategoryRules) (ancestors : List (Uuid × CategoryRules))
    (parentMap : ParentMap) : CategoryRules :=
  if rules.complete then rules else inheritedFrom ancestors rules (ancestorIds parentMap categoryId)

/-- The walk is made only when a category misses a setting and has a parent. -/
def rulesByCategory (db : List CategoryRow) (workspaceId : Uuid) (categories : List CategoryRow)
    (workspaceRows : Option (List CategoryRow)) : List (Uuid × CategoryRules) :=
  let byId := dictOf (fun category => category) categories
  let own := byId.map fun item => (item.1, ownRules item.2)
  if byId.any fun item => !(ownRules item.2).complete && item.2.parentId.isSome then
    let rows := activeRows db workspaceId workspaceRows
    own.map fun item =>
      (item.1, inherited item.1 item.2 (dictOf ownRules rows) (dictOf (·.parentId) rows))
  else own

/-! ### naming.py -/

/-- `category.refdes_prefix or None` -/
def ownPrefix (category : CategoryRow) : Option String := category.refdesPrefix.filter (· ≠ "")

def inheritedPrefix (ancestors : List (Uuid × Option String)) : List Uuid → Option String
  | [] => none
  | ancestorId :: rest =>
    match Dict.find ancestorId ancestors with
    | none => none
    | some (some found) => some found
    | some none => inheritedPrefix ancestors rest

def refdesPrefixes (db : List CategoryRow) (workspaceId : Uuid) (categories : List CategoryRow)
    (workspaceRows : Option (List CategoryRow)) : List (Uuid × Option String) :=
  let own := dictOf ownPrefix categories
  if categories.any fun category =>
      ((Dict.find category.id own).join).isNone && category.parentId.isSome then
    let rows := activeRows db workspaceId workspaceRows
    own.map fun item =>
      (item.1, item.2.or
        (inheritedPrefix (dictOf ownPrefix rows) (ancestorIds (dictOf (·.parentId) rows) item.1)))
  else own

/-! ### spec_columns.py -/

section Columns

variable {ν : Type}

/-- `rows_by_id.get(id)` -/
def rowById (rows : List CategoryRow) (id : Uuid) : Option CategoryRow := rows.find? (·.id = id)

theorem rowById_id {rows : List CategoryRow} {id : Uuid} {row : CategoryRow} (h : rowById rows id = some row) :
    row.id = id ∧ row.id ∈ rows.map (·.id) := by
  have hid : row.id = id := by simpa using List.find?_some h
  exact ⟨hid, List.mem_map_of_mem (List.mem_of_find?_eq_some h)⟩

/-- The loop of `_inherited`: the value and the category that sets it -/
def columnsFrom (rows : List CategoryRow) (setting : CategoryRow → Option ν) :
    Option CategoryRow → List Uuid → Option (ν × Uuid)
  | none, _ => none
  | some node, seen =>
    if node.id ∈ seen then none
    else
      match setting node with
      | some value => some (value, node.id)
      | none => columnsFrom rows setting (node.parentId.bind (rowById rows)) (node.id :: seen)
termination_by node seen =>
  2 * unmet (rows.map (·.id)) seen + (node.filter (·.id ∉ rows.map (·.id))).toList.length
decreasing_by
  have hsub : seen ⊆ node.id :: seen := List.subset_cons_self _ _
  have hnext : (node.parentId.bind (rowById rows)).filter (·.id ∉ rows.map (·.id)) = none := by
    rw [Option.filter_eq_none_iff]
    intro row hrow
    obtain ⟨id, _, hfound⟩ := Option.bind_eq_some_iff.mp hrow
    simpa using (rowById_id hfound).2
  rw [hnext]
  by_cases hmem : node.id ∈ rows.map (·.id)
  · have hlt := unmet_lt hmem ‹_› (List.mem_cons_self (l := seen)) hsub
    simp only [Option.toList_none, List.length_nil]
    omega
  · have hle : unmet (rows.map (·.id)) (node.id :: seen) ≤ unmet (rows.map (·.id)) seen := unmet_le hsub
    have hstart : (some node).filter (·.id ∉ rows.map (·.id)) = some node := by
      rw [Option.filter_eq_some_iff]
      exact ⟨rfl, decide_eq_true hmem⟩
    rw [hstart, Option.toList_none, Option.toList_some, List.length_nil, List.length_singleton]
    omega

/-- `_inherited` of spec_columns.py: the value, and its owner unless that is the category itself -/
def inheritedColumns (rows : List CategoryRow) (start : Option CategoryRow) (selfId : Option Uuid)
    (setting : CategoryRow → Option ν) : Option ν × Option Uuid :=
  match columnsFrom rows setting start [] with
  | some (value, owner) => (some value, if some owner = selfId then none else some owner)
  | none => (none, none)

end Columns

end StockManager.CategorySettings
