import StockManager.Model.Categories

/-! # The category tree in the browser (web/src/lib/categoryTree.ts)

The rows are those of the API. `localeCompare` is the browser's; it answers a negative number,
zero or a positive one, and `idText` is an id as it is written in a response. -/

namespace StockManager.WebTree

open Categories (PartCategory newChildren newChildren_spec)
open DepthFirst (unmet unmet_le unmet_lt unmet_add_le)

structure CategoryTreeNode where
  node : PartCategory
  depth : ℕ
  children : List CategoryTreeNode

/-- Depth first, each node before what is below it. -/
def flattenTree : List CategoryTreeNode → List CategoryTreeNode
  | [] => []
  | ⟨node, depth, children⟩ :: nodes =>
    ⟨node, depth, children⟩ :: (flattenTree children ++ flattenTree nodes)

/-! ### `buildCategoryTree` -/

section Build

variable (localeCompare : String → String → ℤ) (idText : Uuid → String)

def compare (a b : PartCategory) : ℤ :=
  if a.sortOrder ≠ b.sortOrder then a.sortOrder - b.sortOrder
  else if localeCompare a.name b.name ≠ 0 then localeCompare a.name b.name
  else localeCompare (idText a.id) (idText b.id)

/-- `.sort(compare)`, which is stable -/
def sortRows (rows : List PartCategory) : List PartCategory :=
  rows.mergeSort fun a b => compare localeCompare idText a b ≤ 0

/-- The row's bucket in `childrenOf`; a row without one is a root. -/
def bucketOf (rows : List PartCategory) (row : PartCategory) : Option Uuid :=
  row.parentId.filter fun parentId => parentId ≠ row.id ∧ parentId ∈ rows.map (·.id)

/-- `roots` for no parent, else `childrenOf.get(parentId) ?? []` -/
def childrenOf (rows : List PartCategory) (parentId : Option Uuid) : List PartCategory :=
  rows.filter fun row => bucketOf rows row = parentId

/-- `kids` of `attach` -/
def kidsOf (rows : List PartCategory) (placed : List Uuid) (row : PartCategory) :
    List PartCategory :=
  sortRows localeCompare idText
    ((childrenOf rows (some row.id)).filter fun child => child.id ∉ placed)

variable {localeCompare idText} {rows : List PartCategory} {placed : List Uuid}
  {row child : PartCategory}

theorem mem_sortRows {kids : List PartCategory} :
    row ∈ sortRows localeCompare idText kids ↔ row ∈ kids := List.mem_mergeSort

theorem bucketOf_eq_some {parentId : Uuid} : bucketOf rows row = some parentId ↔
    row.parentId = some parentId ∧ parentId ≠ row.id ∧ parentId ∈ rows.map (·.id) := by
  rw [bucketOf, Option.filter_eq_some_iff, decide_eq_true_eq]

theorem mem_childrenOf {parentId : Option Uuid} :
    child ∈ childrenOf rows parentId ↔ child ∈ rows ∧ bucketOf rows child = parentId := by
  simp [childrenOf]

theorem mem_kidsOf : child ∈ kidsOf localeCompare idText rows placed row ↔
    child ∈ rows ∧ bucketOf rows child = some row.id ∧ child.id ∉ placed := by
  rw [kidsOf, mem_sortRows, List.mem_filter, mem_childrenOf, decide_eq_true_eq, and_assoc]

/-- What the recursion of `attach` counts down: the ids left to place, then the placed rows among
those still to attach, then their number. -/
def attachMeasure (rows kids : List PartCategory) (placed : List Uuid) : ℕ ×ₗ ℕ ×ₗ ℕ :=
  toLex (unmet (rows.map (·.id)) placed,
    toLex (kids.countP fun row => row.id ∈ rows.map (·.id) ∧ row.id ∈ placed, kids.length))

theorem attachMeasure_below (kids : List PartCategory) :
    attachMeasure rows (kidsOf localeCompare idText rows (row.id :: placed) row)
        (row.id :: placed) < attachMeasure rows (row :: kids) placed := by
  have hsub : placed ⊆ row.id :: placed := List.subset_cons_self _ _
  have hnone : (kidsOf localeCompare idText rows (row.id :: placed) row).countP
      (fun kid => kid.id ∈ rows.map (·.id) ∧ kid.id ∈ row.id :: placed) = 0 := by
    refine List.countP_eq_zero.mpr fun kid hkid hmet => ?_
    exact (mem_kidsOf.mp hkid).2.2 (of_decide_eq_true hmet).2
  rw [attachMeasure, attachMeasure, hnone]
  rcases Nat.lt_or_eq_of_le (@unmet_le _ _ (rows.map (·.id)) _ _ hsub) with hlt | heq
  · exact Prod.Lex.left _ _ hlt
  · rw [heq]
    refine Prod.Lex.right _ ?_
    by_cases hkey : row.id ∈ rows.map (·.id)
    · have hmet : row.id ∈ placed := by
        by_contra hnot
        have hlt := unmet_lt hkey hnot List.mem_cons_self hsub
        omega
      have hone : 0 < (row :: kids).countP
          (fun kid => kid.id ∈ rows.map (·.id) ∧ kid.id ∈ placed) :=
        List.countP_pos_iff.mpr ⟨row, List.mem_cons_self, decide_eq_true ⟨hkey, hmet⟩⟩
      exact Prod.Lex.left _ _ hone
    · have hempty : kidsOf localeCompare idText rows (row.id :: placed) row = [] :=
        List.eq_nil_iff_forall_not_mem.mpr fun kid hkid =>
          hkey (bucketOf_eq_some.mp (mem_kidsOf.mp hkid).2.1).2.2
      rw [hempty]
      rcases Nat.eq_zero_or_pos ((row :: kids).countP
        fun kid => kid.id ∈ rows.map (·.id) ∧ kid.id ∈ placed) with hzero | hpos
      · rw [hzero]
        exact Prod.Lex.right _ (Nat.succ_pos _)
      · exact Prod.Lex.left _ _ hpos

theorem attachMeasure_after {placed' : List Uuid} (kids : List PartCategory)
    (hsub : placed ⊆ placed') :
    attachMeasure rows kids placed' < attachMeasure rows (row :: kids) placed := by
  rw [attachMeasure, attachMeasure]
  rcases Nat.lt_or_eq_of_le (@unmet_le _ _ (rows.map (·.id)) _ _ hsub) with hlt | heq
  · exact Prod.Lex.left _ _ hlt
  · have hsame : ∀ id ∈ rows.map (·.id), id ∈ placed' → id ∈ placed := by
      intro id hkey hmet
      by_contra hnot
      have hlt := unmet_lt hkey hnot hmet hsub
      omega
    have hle : kids.countP (fun kid => kid.id ∈ rows.map (·.id) ∧ kid.id ∈ placed') ≤
        (row :: kids).countP fun kid => kid.id ∈ rows.map (·.id) ∧ kid.id ∈ placed := by
      refine le_trans (List.countP_mono_left fun kid _ hmet => ?_)
        (List.sublist_cons_self row kids).countP_le
      have hboth := of_decide_eq_true hmet
      exact decide_eq_true ⟨hboth.1, hsame _ hboth.1 hboth.2⟩
    rw [heq]
    refine Prod.Lex.right _ ?_
    rcases Nat.lt_or_eq_of_le hle with hless | hequal
    · exact Prod.Lex.left _ _ hless
    · rw [hequal]
      exact Prod.Lex.right _ (Nat.lt_succ_self _)

variable (localeCompare idText) in
/-- `kids.map((child) => attach(child, depth))`, with the ids placed by the end -/
def attachAll (rows : List PartCategory) : List PartCategory → ℕ → (placed : List Uuid) →
    List CategoryTreeNode × { placed' : List Uuid // placed ⊆ placed' }
  | [], _, placed => ([], ⟨placed, List.Subset.refl placed⟩)
  | row :: kids, depth, placed =>
    let below := attachAll rows (kidsOf localeCompare idText rows (row.id :: placed) row)
      (depth + 1) (row.id :: placed)
    let after := attachAll rows kids depth below.2.1
    (⟨row, depth, below.1⟩ :: after.1,
      ⟨after.2.1, fun _ hid => after.2.2 (below.2.2 (List.mem_cons_of_mem _ hid))⟩)
termination_by kids _ placed => attachMeasure rows kids placed
decreasing_by
  · exact attachMeasure_below kids
  · exact attachMeasure_after kids fun _ hid => below.2.2 (List.mem_cons_of_mem _ hid)

variable (localeCompare idText)

/-- `attach(row, 0)`, for each row that is not placed by then -/
def attachUnplaced (rows : List PartCategory) : List PartCategory → List Uuid →
    List CategoryTreeNode
  | [], _ => []
  | row :: left, placed =>
    if row.id ∈ placed then attachUnplaced rows left placed
    else
      (attachAll localeCompare idText rows [row] 0 placed).1 ++
        attachUnplaced rows left (attachAll localeCompare idText rows [row] 0 placed).2.1

def buildCategoryTree (rows : List PartCategory) : List CategoryTreeNode :=
  let tree := attachAll localeCompare idText rows
    (sortRows localeCompare idText (childrenOf rows none)) 0 []
  tree.1 ++ attachUnplaced localeCompare idText rows (sortRows localeCompare idText rows) tree.2.1

end Build

/-! ### `descendantIds`, `ancestorIds` and `categoryPath` -/

/-- `childrenOf.get(id) ?? []` of `descendantIds` -/
def childIds (rows : List PartCategory) (id : Uuid) : List Uuid :=
  (rows.filter fun row => row.parentId = some id ∧ row.parentId ≠ some row.id).map (·.id)

theorem mem_childIds {rows : List PartCategory} {id child : Uuid} : child ∈ childIds rows id ↔
    child ≠ id ∧ ∃ row ∈ rows, row.id = child ∧ row.parentId = some id := by
  rw [childIds, List.mem_map]
  constructor
  · rintro ⟨row, hrow, rfl⟩
    obtain ⟨hmem, hparent⟩ := List.mem_filter.mp hrow
    have hboth := of_decide_eq_true hparent
    exact ⟨fun heq => hboth.2 (heq ▸ hboth.1), row, hmem, rfl, hboth.1⟩
  · rintro ⟨hne, row, hrow, rfl, hparent⟩
    refine ⟨row, List.mem_filter.mpr ⟨hrow, decide_eq_true ⟨hparent, fun heq => hne ?_⟩⟩, rfl⟩
    exact Option.some.inj (heq.symm.trans hparent)

/-- The loop of `descendantIds`; the end of `queue` comes first. -/
def descendantsFrom (rows : List PartCategory) : List Uuid → List Uuid → List Uuid
  | [], out => out
  | next :: queue, out =>
    descendantsFrom rows ((newChildren out (childIds rows next)).reverse ++ queue)
      (out ++ newChildren out (childIds rows next))
termination_by queue out => 2 * unmet (rows.map (·.id)) out + queue.length
decreasing_by
  have hspec := newChildren_spec out (childIds rows next)
  have hle := @unmet_add_le _ _ (rows.map (·.id)) out _ hspec.1
    (fun x hx => by
      obtain ⟨_, row, hrow, rfl, _⟩ := mem_childIds.mp ((hspec.2 x).mp hx).1
      exact List.mem_map_of_mem hrow)
    fun x hx => ((hspec.2 x).mp hx).2
  rw [List.length_append, List.length_reverse, List.length_cons]
  omega

def descendantIds (rows : List PartCategory) (id : Uuid) : List Uuid :=
  descendantsFrom rows [id] [id]

/-- `byId.get(id)`: a later row of the same id replaces an earlier one. -/
def byId (rows : List PartCategory) (id : Uuid) : Option PartCategory :=
  rows.reverse.find? fun row => row.id = id

theorem mem_of_byId {rows : List PartCategory} {id : Uuid} {row : PartCategory}
    (h : byId rows id = some row) : row ∈ rows ∧ row.id = id :=
  ⟨List.mem_reverse.mp (List.mem_of_find?_eq_some h), by simpa using List.find?_some h⟩

/-- `byId.get(id)?.parent_id ?? null` -/
def parentOf (rows : List PartCategory) (id : Uuid) : Option Uuid :=
  (byId rows id).bind (·.parentId)

theorem mem_of_parentOf {rows : List PartCategory} {id parentId : Uuid}
    (h : parentOf rows id = some parentId) : id ∈ rows.map (·.id) := by
  obtain ⟨row, hrow, _⟩ := Option.bind_eq_some_iff.mp h
  obtain ⟨hmem, rfl⟩ := mem_of_byId hrow
  exact List.mem_map_of_mem hmem

/-- The loop of `ancestorIds` -/
def ancestorsFrom (rows : List PartCategory) : Option Uuid → List Uuid → List Uuid
  | none, _ => []
  | some current, seen =>
    if current ∈ seen then []
    else current :: ancestorsFrom rows (parentOf rows current) (current :: seen)
termination_by current seen => 2 * unmet (rows.map (·.id)) seen + current.toList.length
decreasing_by
  have hsub : seen ⊆ current :: seen := List.subset_cons_self _ _
  cases hparent : parentOf rows current with
  | none =>
    have hle := @unmet_le _ _ (rows.map (·.id)) _ _ hsub
    simp only [Option.toList_none, Option.toList_some, List.length_nil, List.length_singleton]
    omega
  | some parentId =>
    have hlt := unmet_lt (mem_of_parentOf hparent) ‹_› (List.mem_cons_self (l := seen)) hsub
    simp only [Option.toList_some, List.length_singleton]
    omega

def ancestorIds (rows : List PartCategory) (id : Uuid) : List Uuid :=
  ancestorsFrom rows (parentOf rows id) [id]

def categoryPath (rows : List PartCategory) (id : Uuid) (separator : String) : String :=
  match byId rows id with
  | none => ""
  | some self =>
    let names := ((ancestorIds rows id).filterMap fun ancestorId =>
      ((byId rows ancestorId).map (·.name)).filter (· ≠ "")).reverse
    separator.intercalate (names ++ [self.name])

end StockManager.WebTree
