import StockManager.Model.WebCategoryTree
import StockManager.Properties.CategoryTree

/-! # The browser's category tree

Every row is rendered once, whatever the parents. Over a forest whose siblings both sides order
alike, the browser renders what `tree_paths` returns, and its walks are those of the server. -/

namespace StockManager.WebTree

open Categories (PartCategory newChildren newChildren_spec ParentMap loadParentMap siblingKey
  sortSiblings listedParent parentRow rowChildren rootItems pathGraph treePaths)
open DepthFirst (Visits)
open ParentChain (Acyclic Chain)

variable {localeCompare : String → String → ℤ} {idText : Uuid → String}
  {rows kids : List PartCategory} {placed placed' : List Uuid} {row : PartCategory} {depth : ℕ}
  {forest later : List CategoryTreeNode}
variable {left chain : List PartCategory} {a b : PartCategory} {queue out placed₁ : List Uuid}
  {below : List CategoryTreeNode}

def ids (forest : List CategoryTreeNode) : List Uuid := (flattenTree forest).map (·.node.id)

theorem flattenTree_nil : flattenTree [] = [] := by
  rw [flattenTree]

theorem ids_nil : ids [] = [] := by
  rw [ids, flattenTree_nil, List.map_nil]

theorem flattenTree_append (forest later : List CategoryTreeNode) :
    flattenTree (forest ++ later) = flattenTree forest ++ flattenTree later := by
  induction forest with
  | nil => rw [flattenTree, List.nil_append, List.nil_append]
  | cons n forest ih =>
    obtain ⟨node, depth, children⟩ := n
    rw [List.cons_append, flattenTree, flattenTree, ih, List.cons_append, List.append_assoc]

theorem ids_cons (below : List CategoryTreeNode) :
    ids (⟨row, depth, below⟩ :: later) = row.id :: (ids below ++ ids later) := by
  simp [ids, flattenTree]

theorem ids_append : ids (forest ++ later) = ids forest ++ ids later := by
  simp [ids, flattenTree_append]

variable (localeCompare idText) in
def subtree (rows : List PartCategory) (row : PartCategory) (depth : ℕ) (placed : List Uuid) :
    List CategoryTreeNode × { placed' : List Uuid // row.id :: placed ⊆ placed' } :=
  attachAll localeCompare idText rows (kidsOf localeCompare idText rows (row.id :: placed) row)
    (depth + 1) (row.id :: placed)

theorem attachAll_nil : (attachAll localeCompare idText rows [] depth placed).1 = [] ∧
    (attachAll localeCompare idText rows [] depth placed).2.1 = placed := by
  rw [attachAll]
  exact ⟨rfl, rfl⟩

theorem attachAll_cons : (attachAll localeCompare idText rows (row :: kids) depth placed).1 =
      ⟨row, depth, (subtree localeCompare idText rows row depth placed).1⟩ ::
        (attachAll localeCompare idText rows kids depth
          (subtree localeCompare idText rows row depth placed).2.1).1 ∧
    (attachAll localeCompare idText rows (row :: kids) depth placed).2.1 =
      (attachAll localeCompare idText rows kids depth
        (subtree localeCompare idText rows row depth placed).2.1).2.1 := by
  rw [attachAll]
  exact ⟨rfl, rfl⟩

/-- Rows to attach: not placed yet, each a root or under a row that is. -/
structure Ready (rows kids : List PartCategory) (placed : List Uuid) : Prop where
  nodup : (kids.map (·.id)).Nodup
  mem : ∀ kid ∈ kids, kid ∈ rows
  fresh : ∀ kid ∈ kids, kid.id ∉ placed
  met : ∀ kid ∈ kids, ∀ p ∈ bucketOf rows kid, p ∈ placed

structure Attached (rows kids : List PartCategory) (placed : List Uuid)
    (forest : List CategoryTreeNode) (placed' : List Uuid) : Prop where
  mem : ∀ n ∈ flattenTree forest, n.node ∈ rows
  nodup : (ids forest).Nodup
  fresh : ∀ id ∈ ids forest, id ∉ placed
  placed : ∀ id, id ∈ placed' ↔ id ∈ placed ∨ id ∈ ids forest
  origin : ∀ n ∈ flattenTree forest,
    n.node ∈ kids ∨ ∃ p ∈ ids forest, bucketOf rows n.node = some p

theorem attached_nil (rows : List PartCategory) (placed : List Uuid) :
    Attached rows [] placed [] placed where
  mem := by simp [flattenTree_nil]
  nodup := by simp [ids_nil]
  fresh := by simp [ids_nil]
  placed := by simp [ids_nil]
  origin := by simp [flattenTree_nil]

theorem ready_kids (hids : (rows.map (·.id)).Nodup) (placed : List Uuid) (row : PartCategory) :
    Ready rows (kidsOf localeCompare idText rows (row.id :: placed) row) (row.id :: placed) where
  nodup := by
    have hperm := List.mergeSort_perm ((childrenOf rows (some row.id)).filter fun child =>
      child.id ∉ row.id :: placed) fun a b => compare localeCompare idText a b ≤ 0
    have hsub : ((childrenOf rows (some row.id)).filter fun child =>
        child.id ∉ row.id :: placed).Sublist rows :=
      List.filter_sublist.trans List.filter_sublist
    exact (hperm.map (·.id)).nodup_iff.mpr (hids.sublist (hsub.map _))
  mem := fun kid hkid => (mem_kidsOf.mp hkid).1
  fresh := fun kid hkid => (mem_kidsOf.mp hkid).2.2
  met := by
    intro kid hkid p hp
    rw [(mem_kidsOf.mp hkid).2.1] at hp
    rw [← Option.some.inj hp]
    exact List.mem_cons_self

theorem attached_cons (hrow : row ∈ rows) (hfresh : row.id ∉ placed)
    (hbelow : Attached rows (kidsOf localeCompare idText rows (row.id :: placed) row)
      (row.id :: placed) below placed₁)
    (hafter : Attached rows kids placed₁ later placed') :
    Attached rows (row :: kids) placed (⟨row, depth, below⟩ :: later) placed' := by
  have hself : row.id ∈ placed₁ := (hbelow.placed _).mpr (.inl List.mem_cons_self)
  constructor
  · intro n hn
    rw [flattenTree, List.mem_cons, List.mem_append] at hn
    rcases hn with rfl | hn | hn
    · exact hrow
    · exact hbelow.mem n hn
    · exact hafter.mem n hn
  · rw [ids_cons, List.nodup_cons, List.mem_append, not_or, List.nodup_append]
    refine ⟨⟨fun hid => hbelow.fresh _ hid List.mem_cons_self, fun hid => hafter.fresh _ hid hself⟩,
      hbelow.nodup, hafter.nodup, fun a ha b hb heq => ?_⟩
    exact hafter.fresh b hb ((hbelow.placed b).mpr (.inr (heq ▸ ha)))
  · intro id hid
    rw [ids_cons, List.mem_cons, List.mem_append] at hid
    rcases hid with rfl | hid | hid
    · exact hfresh
    · exact fun hmem => hbelow.fresh id hid (List.mem_cons_of_mem _ hmem)
    · exact fun hmem => hafter.fresh id hid
        ((hbelow.placed id).mpr (.inl (List.mem_cons_of_mem _ hmem)))
  · intro id
    rw [hafter.placed, hbelow.placed, ids_cons, List.mem_cons, List.mem_cons, List.mem_append]
    tauto
  · intro n hn
    rw [flattenTree, List.mem_cons, List.mem_append] at hn
    rw [ids_cons]
    rcases hn with rfl | hn | hn
    · exact .inl List.mem_cons_self
    · rcases hbelow.origin n hn with hkid | ⟨p, hp, hbucket⟩
      · exact .inr ⟨row.id, List.mem_cons_self, (mem_kidsOf.mp hkid).2.1⟩
      · exact .inr ⟨p, by simp [hp], hbucket⟩
    · rcases hafter.origin n hn with hkid | ⟨p, hp, hbucket⟩
      · exact .inl (List.mem_cons_of_mem _ hkid)
      · exact .inr ⟨p, by simp [hp], hbucket⟩

/-- A subtree holds no sibling of its root: what it holds beyond the root is under a row that it
placed itself. -/
theorem Ready.after (hids : (rows.map (·.id)).Nodup) (h : Ready rows (row :: kids) placed)
    (hbelow : Attached rows (kidsOf localeCompare idText rows (row.id :: placed) row)
      (row.id :: placed) below placed₁) : Ready rows kids placed₁ := by
  obtain ⟨hne, hnodup⟩ := List.nodup_cons.mp h.nodup
  refine ⟨hnodup, fun kid hkid => h.mem kid (List.mem_cons_of_mem _ hkid), ?_, ?_⟩
  · intro kid hkid hplaced
    have hkid' := List.mem_cons_of_mem row hkid
    have hmet := h.met kid hkid'
    rcases (hbelow.placed _).mp hplaced with hold | hnew
    · rcases List.mem_cons.mp hold with heq | hold
      · exact hne (List.mem_map.mpr ⟨kid, hkid, heq⟩)
      · exact h.fresh kid hkid' hold
    · obtain ⟨n, hn, hid⟩ := List.mem_map.mp hnew
      have hsame : n.node = kid :=
        List.inj_on_of_nodup_map hids (hbelow.mem n hn) (h.mem kid hkid') hid
      rcases hbelow.origin n hn with hunder | ⟨p, hp, hbucket⟩
      · have hplaced := hmet row.id (hsame ▸ (mem_kidsOf.mp hunder).2.1)
        exact h.fresh row List.mem_cons_self hplaced
      · exact hbelow.fresh p hp (List.mem_cons_of_mem _ (hmet p (hsame ▸ hbucket)))
  · intro kid hkid p hp
    have hmet := h.met kid (List.mem_cons_of_mem _ hkid) p hp
    exact (hbelow.placed p).mpr (.inl (List.mem_cons_of_mem _ hmet))

theorem attachAll_attached (hids : (rows.map (·.id)).Nodup) (h : Ready rows kids placed) :
    Attached rows kids placed (attachAll localeCompare idText rows kids depth placed).1
      (attachAll localeCompare idText rows kids depth placed).2.1 := by
  induction kids, depth, placed using attachAll.induct localeCompare idText rows with
  | case1 depth placed =>
    rw [attachAll_nil.1, attachAll_nil.2]
    exact attached_nil rows placed
  | case2 row kids depth placed _ ihbelow ihafter =>
    have hbelow := ihbelow (ready_kids hids placed row)
    rw [attachAll_cons.1, attachAll_cons.2]
    exact attached_cons (h.mem row List.mem_cons_self) (h.fresh row List.mem_cons_self) hbelow
      (ihafter (h.after hids hbelow))

/-- What the last loop of `buildCategoryTree` adds. -/
structure Completed (rows left : List PartCategory) (placed : List Uuid)
    (forest : List CategoryTreeNode) : Prop where
  mem : ∀ n ∈ flattenTree forest, n.node ∈ rows
  nodup : (ids forest).Nodup
  fresh : ∀ id ∈ ids forest, id ∉ placed
  complete : ∀ row ∈ left, row.id ∈ placed ∨ row.id ∈ ids forest

theorem completed_append
    (hone : Attached rows [row] placed forest placed') (hself : row.id ∈ ids forest) (hrest : Completed rows left placed' later) :
    Completed rows (row :: left) placed (forest ++ later) := by
  constructor
  · rw [flattenTree_append]
    exact List.forall_mem_append.mpr ⟨hone.mem, hrest.mem⟩
  · rw [ids_append, List.nodup_append]
    refine ⟨hone.nodup, hrest.nodup, fun a ha b hb heq => ?_⟩
    exact hrest.fresh b hb ((hone.placed b).mpr (.inr (heq ▸ ha)))
  · rw [ids_append, List.forall_mem_append]
    exact ⟨hone.fresh, fun id hid hmem => hrest.fresh id hid ((hone.placed id).mpr (.inl hmem))⟩
  · rw [List.forall_mem_cons, ids_append]
    refine ⟨.inr (List.mem_append.mpr (.inl hself)), fun other hother => ?_⟩
    rcases hrest.complete other hother with hplaced | hnew
    · exact ((hone.placed _).mp hplaced).imp id fun hid => List.mem_append.mpr (.inl hid)
    · exact .inr (List.mem_append.mpr (.inr hnew))

theorem attachUnplaced_completed (hids : (rows.map (·.id)).Nodup) {left : List PartCategory}
    (hleft : ∀ row ∈ left, row ∈ rows) :
    Completed rows left placed (attachUnplaced localeCompare idText rows left placed) := by
  induction left generalizing placed with
  | nil =>
    rw [attachUnplaced]
    exact ⟨by simp [flattenTree_nil], by simp [ids_nil], by simp [ids_nil], by simp⟩
  | cons row left ih =>
    rw [List.forall_mem_cons] at hleft
    rw [attachUnplaced]
    split
    next hplaced =>
      have hrest := @ih placed hleft.2
      exact ⟨hrest.mem, hrest.nodup, hrest.fresh,
        List.forall_mem_cons.mpr ⟨.inl hplaced, hrest.complete⟩⟩
    next hfresh =>
      -- attached alone, the row needs no placed parent
      have hone : Attached rows [row] placed
          (attachAll localeCompare idText rows [row] 0 placed).1
          (attachAll localeCompare idText rows [row] 0 placed).2.1 := by
        rw [attachAll_cons.1, attachAll_cons.2, attachAll_nil.1, attachAll_nil.2]
        exact attached_cons hleft.1 hfresh (attachAll_attached hids (ready_kids hids placed row))
          (attached_nil rows _)
      have hself : row.id ∈ ids (attachAll localeCompare idText rows [row] 0 placed).1 := by
        rw [attachAll_cons.1, ids_cons]
        exact List.mem_cons_self
      exact completed_append hone hself (ih hleft.2)

theorem ready_roots (hids : (rows.map (·.id)).Nodup) :
    Ready rows (sortRows localeCompare idText (childrenOf rows none)) [] where
  nodup := by
    have hperm := List.mergeSort_perm (childrenOf rows none)
      fun a b => compare localeCompare idText a b ≤ 0
    exact (hperm.map (·.id)).nodup_iff.mpr (hids.sublist (List.filter_sublist.map _))
  mem := fun kid hkid => (mem_childrenOf.mp (mem_sortRows.mp hkid)).1
  fresh := fun _ _ => List.not_mem_nil
  met := by
    intro kid hkid p hp
    rw [(mem_childrenOf.mp (mem_sortRows.mp hkid)).2] at hp
    exact absurd hp (Option.not_mem_none p)

theorem buildCategoryTree_perm (hids : (rows.map (·.id)).Nodup) :
    ((flattenTree (buildCategoryTree localeCompare idText rows)).map (·.node)).Perm rows := by
  have hroots := @attachAll_attached localeCompare idText rows _ [] 0 hids
    (@ready_roots localeCompare idText rows hids)
  have hrest := @attachUnplaced_completed localeCompare idText rows
    (attachAll localeCompare idText rows
      (sortRows localeCompare idText (childrenOf rows none)) 0 []).2.1 hids
    (sortRows localeCompare idText rows) fun row hrow => mem_sortRows.mp hrow
  have hnodup : (ids (buildCategoryTree localeCompare idText rows)).Nodup := by
    rw [buildCategoryTree, ids_append, List.nodup_append]
    refine ⟨hroots.nodup, hrest.nodup, fun a ha b hb heq => ?_⟩
    exact hrest.fresh b hb ((hroots.placed b).mpr (.inr (heq ▸ ha)))
  have hmem : ∀ n ∈ flattenTree (buildCategoryTree localeCompare idText rows), n.node ∈ rows := by
    rw [buildCategoryTree, flattenTree_append]
    exact List.forall_mem_append.mpr ⟨hroots.mem, hrest.mem⟩
  have hnodes :
      ((flattenTree (buildCategoryTree localeCompare idText rows)).map (·.node)).Nodup := by
    refine List.Nodup.of_map (·.id) ?_
    rw [List.map_map]
    exact hnodup
  refine (List.perm_ext_iff_of_nodup hnodes (List.Nodup.of_map _ hids)).mpr fun row => ?_
  constructor
  · intro hrow
    obtain ⟨n, hn, rfl⟩ := List.mem_map.mp hrow
    exact hmem n hn
  · intro hrow
    have hid : row.id ∈ ids (buildCategoryTree localeCompare idText rows) := by
      rw [buildCategoryTree, ids_append, List.mem_append]
      rcases hrest.complete row (mem_sortRows.mpr hrow) with hplaced | hnew
      · exact .inl (((hroots.placed _).mp hplaced).resolve_left List.not_mem_nil)
      · exact .inr hnew
    obtain ⟨n, hn, hsame⟩ := List.mem_map.mp hid
    have hnode : n.node = row := List.inj_on_of_nodup_map hids (hmem n hn) hrow hsame
    exact hnode ▸ List.mem_map_of_mem hn

/-- The first rows stand at `depth`, every other one level below its rendered parent. -/
structure Leveled (depth : ℕ) (forest : List CategoryTreeNode) : Prop where
  top : ∀ n ∈ forest, n.depth = depth
  below : ∀ n ∈ flattenTree forest, ∀ child ∈ n.children,
    child.depth = n.depth + 1 ∧ child.node.parentId = some n.node.id

theorem Leveled.append (h : Leveled depth forest) (hafter : Leveled depth later) :
    Leveled depth (forest ++ later) where
  top := List.forall_mem_append.mpr ⟨h.top, hafter.top⟩
  below := by
    rw [flattenTree_append]
    exact List.forall_mem_append.mpr ⟨h.below, hafter.below⟩

theorem attachAll_nodes : (attachAll localeCompare idText rows kids depth placed).1.map (·.node) =
    kids := by
  induction kids generalizing placed with
  | nil => rw [attachAll_nil.1, List.map_nil]
  | cons row kids ih => rw [attachAll_cons.1, List.map_cons, ih]

theorem attachAll_leveled :
    Leveled depth (attachAll localeCompare idText rows kids depth placed).1 := by
  induction kids, depth, placed using attachAll.induct localeCompare idText rows with
  | case1 depth placed =>
    rw [attachAll_nil.1]
    exact ⟨by simp, by simp [flattenTree_nil]⟩
  | case2 row kids depth placed _ ihbelow ihafter =>
    rw [attachAll_cons.1]
    constructor
    · exact List.forall_mem_cons.mpr ⟨rfl, ihafter.top⟩
    · rw [flattenTree, List.forall_mem_cons, List.forall_mem_append]
      refine ⟨fun child hchild => ⟨ihbelow.top child hchild, ?_⟩, ihbelow.below, ihafter.below⟩
      have hkid : child.node ∈ kidsOf localeCompare idText rows (row.id :: placed) row := by
        have hnodes := List.mem_map_of_mem (f := fun n : CategoryTreeNode => n.node) hchild
        rwa [subtree, attachAll_nodes] at hnodes
      exact (bucketOf_eq_some.mp (mem_kidsOf.mp hkid).2.1).1

theorem attachUnplaced_leveled :
    Leveled 0 (attachUnplaced localeCompare idText rows left placed) := by
  induction left generalizing placed with
  | nil =>
    rw [attachUnplaced]
    exact ⟨by simp, by simp [flattenTree_nil]⟩
  | cons row left ih =>
    rw [attachUnplaced]
    split
    · exact ih
    · exact attachAll_leveled.append ih

def Upward (rows : List PartCategory) (placed : List Uuid) : Prop :=
  ∀ row ∈ rows, row.id ∈ placed → ∀ p ∈ bucketOf rows row, p ∈ placed

theorem Upward.cons (hids : (rows.map (·.id)).Nodup) (h : Upward rows placed) (hrow : row ∈ rows)
    (hmet : ∀ p ∈ bucketOf rows row, p ∈ placed) : Upward rows (row.id :: placed) := by
  intro other hother hplaced p hp
  rcases List.mem_cons.mp hplaced with hid | hplaced
  · obtain rfl : other = row := List.inj_on_of_nodup_map hids hother hrow hid
    exact List.mem_cons_of_mem _ (hmet p hp)
  · exact List.mem_cons_of_mem _ (h other hother hplaced p hp)

theorem Upward.attached (hids : (rows.map (·.id)).Nodup) (h : Upward rows placed)
    (hready : Ready rows kids placed) (hforest : Attached rows kids placed forest placed') :
    Upward rows placed' := by
  intro row hrow hplaced p hp
  rw [hforest.placed]
  rcases (hforest.placed _).mp hplaced with hold | hnew
  · exact .inl (h row hrow hold p hp)
  · obtain ⟨n, hn, hid⟩ := List.mem_map.mp hnew
    obtain rfl : n.node = row := List.inj_on_of_nodup_map hids (hforest.mem n hn) hrow hid
    rcases hforest.origin n hn with hkid | ⟨q, hq, hbucket⟩
    · exact .inl (hready.met _ hkid p hp)
    · rw [Option.some.inj (hp.symm.trans hbucket)]
      exact .inr hq

variable (localeCompare idText) in
def treeChildren (rows : List PartCategory) (row : PartCategory) : List PartCategory :=
  sortRows localeCompare idText (childrenOf rows (some row.id))

theorem kidsOf_eq (hready : Ready rows (row :: kids) placed) (h : Upward rows placed) :
    kidsOf localeCompare idText rows (row.id :: placed) row =
      treeChildren localeCompare idText rows row := by
  rw [kidsOf, treeChildren]
  refine congrArg _ (List.filter_eq_self.mpr fun child hchild => decide_eq_true fun hplaced => ?_)
  obtain ⟨hmem, hbucket⟩ := mem_childrenOf.mp hchild
  rcases List.mem_cons.mp hplaced with hid | hplaced
  · exact (bucketOf_eq_some.mp hbucket).2.1 hid.symm
  · exact hready.fresh row List.mem_cons_self (h child hmem hplaced _ hbucket)

theorem attachAll_visits (hids : (rows.map (·.id)).Nodup) (hready : Ready rows kids placed)
    (h : Upward rows placed) : Visits (treeChildren localeCompare idText rows) kids
      ((flattenTree (attachAll localeCompare idText rows kids depth placed).1).map (·.node)) := by
  induction kids, depth, placed using attachAll.induct localeCompare idText rows with
  | case1 depth placed =>
    rw [attachAll_nil.1, flattenTree_nil]
    exact Visits.nil
  | case2 row kids depth placed _ ihbelow ihafter =>
    have hkids := @ready_kids localeCompare idText rows hids placed row
    have hbelow := @attachAll_attached localeCompare idText rows _ _ (depth + 1) hids hkids
    have hself : Upward rows (row.id :: placed) :=
      h.cons hids (hready.mem row List.mem_cons_self) (hready.met row List.mem_cons_self)
    have hvisits : Visits (treeChildren localeCompare idText rows)
        (treeChildren localeCompare idText rows row)
        ((flattenTree (subtree localeCompare idText rows row depth placed).1).map (·.node)) := by
      rw [← kidsOf_eq hready h]
      exact ihbelow hkids hself
    rw [attachAll_cons.1, flattenTree, List.map_cons, List.map_append]
    exact Visits.cons hvisits
      (ihafter (hready.after hids hbelow) (hself.attached hids hkids hbelow))

/-- Every parent is one of the rows. -/
def ClosedRows (rows : List PartCategory) : Prop :=
  ∀ row ∈ rows, ∀ p ∈ row.parentId, p ∈ rows.map (·.id)

/-- `localeCompare` orders the names of siblings as the server does, and tells siblings apart. -/
structure OneOrder (localeCompare : String → String → ℤ) (rows : List PartCategory) : Prop where
  refl : ∀ text, localeCompare text text = 0
  names : ∀ a ∈ rows, ∀ b ∈ rows, a.parentId = b.parentId →
    (localeCompare a.name b.name < 0 ↔ a.name < b.name) ∧
      (localeCompare a.name b.name = 0 ↔ a.name = b.name)
  total : ∀ a ∈ rows, ∀ b ∈ rows, a.parentId = b.parentId → siblingKey a = siblingKey b → a = b

theorem siblingKey_le : siblingKey a ≤ siblingKey b ↔
    a.sortOrder < b.sortOrder ∨ a.sortOrder = b.sortOrder ∧ a.name ≤ b.name :=
  Prod.Lex.toLex_le_toLex

theorem OneOrder.compare_le (h : OneOrder localeCompare rows) (ha : a ∈ rows)
    (hb : b ∈ rows) (hparent : a.parentId = b.parentId) :
    compare localeCompare idText a b ≤ 0 ↔ siblingKey a ≤ siblingKey b := by
  obtain ⟨hless, hsame⟩ := h.names a ha b hb hparent
  rw [siblingKey_le, compare]
  by_cases horder : a.sortOrder = b.sortOrder
  · rw [if_neg (not_not_intro horder)]
    by_cases hname : a.name = b.name
    · have hkeys : siblingKey a = siblingKey b := by rw [siblingKey, siblingKey, horder, hname]
      obtain rfl : a = b := h.total a ha b hb hparent hkeys
      rw [if_neg (not_not_intro (h.refl _)), h.refl]
      exact ⟨fun _ => .inr ⟨rfl, le_rfl⟩, fun _ => le_rfl⟩
    · have hne : localeCompare a.name b.name ≠ 0 := fun hzero => hname (hsame.mp hzero)
      rw [if_pos hne]
      constructor
      · intro hle
        exact .inr ⟨horder, le_of_lt (hless.mp (lt_of_le_of_ne hle hne))⟩
      · rintro (hlt | ⟨-, hle⟩)
        · omega
        · exact le_of_lt (hless.mpr (lt_of_le_of_ne hle hname))
  · rw [if_pos horder]
    constructor
    · intro hle
      exact .inl (by omega)
    · rintro (hlt | ⟨heq, -⟩)
      · omega
      · exact absurd heq horder

theorem byId_eq (hids : (rows.map (·.id)).Nodup) (hrow : row ∈ rows) :
    byId rows row.id = some row := by
  cases hfind : byId rows row.id with
  | none =>
    have hnone := List.find?_eq_none.mp hfind row (List.mem_reverse.mpr hrow)
    exact absurd (decide_eq_true rfl) hnone
  | some other =>
    obtain ⟨hmem, hid⟩ := mem_of_byId hfind
    rw [List.inj_on_of_nodup_map hids hmem hrow hid]

theorem get_eq (hids : (rows.map (·.id)).Nodup) (id : Uuid) :
    (loadParentMap rows).get id = parentOf rows id := by
  rw [ParentMap.get, loadParentMap,
    Dict.find_map_key (fun row : PartCategory => row.id) (·.parentId), parentOf]
  cases hfind : rows.find? fun row => row.id = id with
  | none =>
    have hnone : byId rows id = none := by
      refine List.find?_eq_none.mpr fun row hrow => ?_
      exact List.find?_eq_none.mp hfind row (List.mem_reverse.mp hrow)
    rw [hnone]
    rfl
  | some row =>
    have hid : row.id = id := by simpa using List.find?_some hfind
    rw [← hid, byId_eq hids (List.mem_of_find?_eq_some hfind)]
    rfl

theorem parentOf_eq (hids : (rows.map (·.id)).Nodup) (hrow : row ∈ rows) :
    parentOf rows row.id = row.parentId := by
  rw [parentOf, byId_eq hids hrow, Option.bind_some]

theorem ancestorsFrom_eq (hids : (rows.map (·.id)).Nodup) {current : Option Uuid}
    {seen : List Uuid} : ancestorsFrom rows current seen =
      Categories.ancestorsFrom (loadParentMap rows) current seen := by
  induction current, seen using ancestorsFrom.induct rows with
  | case1 seen => rw [ancestorsFrom, Categories.ancestorsFrom]
  | case2 current seen hmem =>
    rw [ancestorsFrom, Categories.ancestorsFrom, if_pos hmem, if_pos hmem]
  | case3 current seen hmem ih =>
    rw [ancestorsFrom, Categories.ancestorsFrom, if_neg hmem, if_neg hmem, ih, get_eq hids]

theorem ancestorIds_eq (hids : (rows.map (·.id)).Nodup) (id : Uuid) :
    ancestorIds rows id = Categories.ancestorIds (loadParentMap rows) id := by
  rw [ancestorIds, Categories.ancestorIds, ancestorsFrom_eq hids, get_eq hids]

theorem mem_childrenIn_iff {id child : Uuid} :
    child ∈ Categories.childrenIn (loadParentMap rows) id ↔
      ∃ row ∈ rows, row.id = child ∧ row.parentId = some id := by
  rw [Categories.mem_childrenIn, loadParentMap, List.mem_map]
  simp only [Prod.mk.injEq]

theorem descendantsFrom_sound {P : Uuid → Prop}
    (hstep : ∀ id, P id → ∀ child ∈ childIds rows id, P child) (hqueue : ∀ id ∈ queue, P id) (hout : ∀ id ∈ out, P id) :
    ∀ id ∈ descendantsFrom rows queue out, P id := by
  induction queue, out using descendantsFrom.induct rows with
  | case1 => rwa [descendantsFrom]
  | case2 next queue out ih =>
    rw [List.forall_mem_cons] at hqueue
    have hnew : ∀ id ∈ newChildren out (childIds rows next), P id := fun id hid =>
      hstep next hqueue.1 id (((newChildren_spec _ _).2 id).mp hid).1
    rw [descendantsFrom]
    refine ih (List.forall_mem_append.mpr ⟨fun id hid => ?_, hqueue.2⟩)
      (List.forall_mem_append.mpr ⟨hout, hnew⟩)
    exact hnew id (List.mem_reverse.mp hid)

theorem subset_descendantsFrom : out ⊆ descendantsFrom rows queue out := by
  induction queue, out using descendantsFrom.induct rows with
  | case1 =>
    rw [descendantsFrom]
    exact List.Subset.refl _
  | case2 next queue out ih =>
    rw [descendantsFrom]
    exact List.Subset.trans (List.subset_append_left _ _) ih

theorem descendantsFrom_closed (h : ∀ id ∈ out, id ∈ queue ∨ childIds rows id ⊆ out) :
    ∀ id ∈ descendantsFrom rows queue out, childIds rows id ⊆ descendantsFrom rows queue out := by
  induction queue, out using descendantsFrom.induct rows with
  | case1 =>
    rw [descendantsFrom]
    exact fun id hid => (h id hid).resolve_left List.not_mem_nil
  | case2 next queue out ih =>
    rw [descendantsFrom]
    refine ih fun id hid => ?_
    rw [List.mem_append, List.mem_reverse]
    rcases List.mem_append.mp hid with hid | hid
    · rcases h id hid with hqueue | hchildren
      · rcases List.mem_cons.mp hqueue with rfl | hqueue
        · refine .inr fun child hchild => ?_
          by_cases hout : child ∈ out
          · exact List.mem_append.mpr (.inl hout)
          · exact List.mem_append.mpr (.inr (((newChildren_spec _ _).2 child).mpr ⟨hchild, hout⟩))
        · exact .inl (.inr hqueue)
      · exact .inr (List.Subset.trans hchildren (List.subset_append_left _ _))
    · exact .inl (.inl hid)

theorem mem_descendantIds {id other : Uuid} : other ∈ descendantIds rows id ↔
    other ∈ Categories.descendantIds (loadParentMap rows) id := by
  have hself : ∀ x ∈ [id], x ∈ descendantIds rows id := fun x hx => subset_descendantsFrom hx
  have hserver : ∀ x ∈ [id], x ∈ Categories.descendantIds (loadParentMap rows) id := fun x hx =>
    Categories.subset_descendantsFrom hx
  constructor
  · refine fun h => descendantsFrom_sound
      (P := fun x => x ∈ Categories.descendantIds (loadParentMap rows) id)
      (fun x hx child hchild => ?_) hserver hserver other h
    refine Categories.descendantsFrom_closed (fun y hy => .inl hy) x hx ?_
    exact mem_childrenIn_iff.mpr (mem_childIds.mp hchild).2
  · refine fun h => Categories.descendantsFrom_sound (P := fun x => x ∈ descendantIds rows id)
      (fun x hx child hchild => ?_) hself hself other h
    by_cases hne : child = x
    · exact hne ▸ hx
    · exact descendantsFrom_closed (fun y hy => .inl hy) x hx
        (mem_childIds.mpr ⟨hne, mem_childrenIn_iff.mp hchild⟩)

/-- What the helpers of the browser return over a list of rows. -/
structure ServerAgrees (localeCompare : String → String → ℤ) (idText : Uuid → String)
    (rows : List PartCategory) (separator : String) : Prop where
  paths : (flattenTree (buildCategoryTree localeCompare idText rows)).map
      (fun n => (n.node, categoryPath rows n.node.id separator)) = treePaths rows separator
  descendants : ∀ id other,
    other ∈ descendantIds rows id ↔ other ∈ Categories.descendantIds (loadParentMap rows) id
  ancestors : ∀ id, ancestorIds rows id = Categories.ancestorIds (loadParentMap rows) id

theorem attachUnplaced_of_placed (h : ∀ row ∈ left, row.id ∈ placed) :
    attachUnplaced localeCompare idText rows left placed = [] := by
  induction left with
  | nil => rw [attachUnplaced]
  | cons row left ih =>
    rw [List.forall_mem_cons] at h
    rw [attachUnplaced, if_pos h.1, ih h.2]

section Forest

variable (hids : (rows.map (·.id)).Nodup) (hacyclic : Acyclic (loadParentMap rows).get)
  (hclosed : ClosedRows rows)

include hids in
theorem get_row (hrow : row ∈ rows) : (loadParentMap rows).get row.id = row.parentId := by
  rw [get_eq hids, parentOf_eq hids hrow]

include hclosed in
theorem listedParent_eq (hrow : row ∈ rows) : listedParent rows row = row.parentId := by
  cases hparent : row.parentId with
  | none =>
    rw [listedParent, hparent]
    rfl
  | some p =>
    rw [listedParent, hparent, Option.filter_some, if_pos]
    exact decide_eq_true (hclosed row hrow p hparent)

include hids hacyclic hclosed in
theorem bucketOf_eq (hrow : row ∈ rows) : bucketOf rows row = row.parentId := by
  cases hparent : row.parentId with
  | none =>
    rw [bucketOf, hparent]
    rfl
  | some p =>
    refine bucketOf_eq_some.mpr ⟨hparent, fun heq => ?_, hclosed row hrow p hparent⟩
    exact hacyclic row.id (.single ((get_row hids hrow).trans (heq ▸ hparent)))

include hids hacyclic hclosed in
theorem sortRows_childrenOf (horder : OneOrder localeCompare rows) (p : Option Uuid) :
    sortRows localeCompare idText (childrenOf rows p) = Categories.childrenOf rows p := by
  have hsame : childrenOf rows p = rows.filter fun row => listedParent rows row = p := by
    refine List.filter_congr fun row hrow => ?_
    rw [bucketOf_eq hids hacyclic hclosed hrow, listedParent_eq hclosed hrow]
  have hsort := @List.map_mergeSort _ _ (fun a b => compare localeCompare idText a b ≤ 0)
    (fun a b => siblingKey a ≤ siblingKey b) id (childrenOf rows p) fun a ha b hb => by
      obtain ⟨harow, habucket⟩ := mem_childrenOf.mp ha
      obtain ⟨hbrow, hbbucket⟩ := mem_childrenOf.mp hb
      rw [bucketOf_eq hids hacyclic hclosed harow] at habucket
      rw [bucketOf_eq hids hacyclic hclosed hbrow] at hbbucket
      exact decide_eq_decide.mpr (horder.compare_le harow hbrow (habucket.trans hbbucket.symm))
  rw [List.map_id, List.map_id] at hsort
  rw [sortRows, hsort, Categories.childrenOf, sortSiblings, hsame]

include hids in
theorem transGen_get
    (h : Relation.TransGen (ParentChain.IsParent (parentRow rows)) a b) (ha : a ∈ rows) :
    Relation.TransGen (ParentChain.IsParent (loadParentMap rows).get) a.id b.id ∧ b ∈ rows := by
  have hstep : ∀ {c d : PartCategory}, c ∈ rows → parentRow rows c = some d →
      (loadParentMap rows).get c.id = some d.id ∧ d ∈ rows := by
    intro c d hc hparent
    obtain ⟨hd, hlisted⟩ := (Categories.parentRow_eq_some hids).mp hparent
    exact ⟨(get_row hids hc).trans (Option.mem_filter_iff.mp hlisted).1, hd⟩
  induction h with
  | single hparent =>
    obtain ⟨hget, hd⟩ := hstep ha hparent
    exact ⟨.single hget, hd⟩
  | tail _ hparent ih =>
    obtain ⟨hget, hd⟩ := hstep ih.2 hparent
    exact ⟨ih.1.tail hget, hd⟩

include hids hacyclic in
theorem exists_chain_row (hrow : row ∈ rows) : ∃ chain, Chain (parentRow rows) row chain := by
  refine ParentChain.exists_chain (fun a _ p hp => ((Categories.parentRow_eq_some hids).mp hp).1)
    (fun a ha hcycle => ?_) hrow
  exact hacyclic a.id (transGen_get hids hcycle ha).1

include hids hacyclic hclosed in
theorem ancestorIds_chain (h : Chain (parentRow rows) row chain)
    (hrow : row ∈ rows) : chain.map (·.id) = (ancestorIds rows row.id).reverse ++ [row.id] := by
  rw [ancestorIds_eq hids]
  induction h with
  | root hroot =>
    have hget := get_row hids hrow
    rw [← listedParent_eq hclosed hrow, (Categories.parentRow_eq_none hids).mp hroot] at hget
    rw [Categories.ancestorIds_of_get_none hget]
    rfl
  | step hparent _ ih =>
    obtain ⟨hp, hlisted⟩ := (Categories.parentRow_eq_some hids).mp hparent
    have hget := get_row hids hrow
    rw [← listedParent_eq hclosed hrow, hlisted] at hget
    rw [Categories.ancestorIds_of_get hacyclic hget, List.map_append, ih hp, List.reverse_cons]
    rfl

include hids hacyclic hclosed in
theorem categoryPath_eq (hnames : ∀ row ∈ rows, row.name ≠ "")
    (h : Chain (parentRow rows) row chain) (hrow : row ∈ rows) (separator : String) :
    categoryPath rows row.id separator = separator.intercalate (chain.map (·.name)) := by
  obtain ⟨above, rfl⟩ := h.last
  have hancestors := ancestorIds_chain hids hacyclic hclosed h hrow
  rw [List.map_append, List.map_singleton, List.append_left_inj] at hancestors
  have habove : ∀ c ∈ above, c ∈ rows := fun c hc =>
    Categories.chain_subset hids h hrow c (List.mem_append.mpr (.inl hc))
  have hshown : (above.reverse.map (·.id)).filterMap (fun ancestorId =>
      ((byId rows ancestorId).map (·.name)).filter (· ≠ "")) = above.reverse.map (·.name) := by
    rw [List.filterMap_map, ← List.filterMap_eq_map]
    refine List.filterMap_congr fun c hc => ?_
    have hc := habove c (List.mem_reverse.mp hc)
    show ((byId rows c.id).map (·.name)).filter (· ≠ "") = some c.name
    rw [byId_eq hids hc, Option.map_some, Option.filter_some, if_pos (decide_eq_true (hnames c hc))]
  have hids' : ancestorIds rows row.id = above.reverse.map (·.id) := by
    rw [List.map_reverse, hancestors, List.reverse_reverse]
  rw [categoryPath, byId_eq hids hrow]
  show separator.intercalate (((ancestorIds rows row.id).filterMap _).reverse ++ [row.name]) = _
  rw [hids', hshown, List.map_reverse, List.reverse_reverse, List.map_append, List.map_singleton]

include hids hacyclic hclosed in
theorem buildCategoryTree_rows (horder : OneOrder localeCompare rows) (separator : String) :
    (flattenTree (buildCategoryTree localeCompare idText rows)).map (·.node) =
      (treePaths rows separator).map Prod.fst := by
  have htop := @sortRows_childrenOf localeCompare idText rows hids hacyclic hclosed horder none
  have hready := @ready_roots localeCompare idText rows hids
  have hroots := @attachAll_attached localeCompare idText rows _ [] 0 hids hready
  have hvisits := @attachAll_visits localeCompare idText rows _ [] 0 hids hready
    fun _ _ hplaced => absurd hplaced List.not_mem_nil
  obtain ⟨out, hout, heq⟩ := Categories.treePaths_eq hids separator
  have hchildren : treeChildren localeCompare idText rows = rowChildren rows :=
    funext fun row => sortRows_childrenOf hids hacyclic hclosed horder (some row.id)
  rw [htop] at hroots
  rw [htop, hchildren] at hvisits
  have hsame := hvisits.unique (Categories.visits_roots hout)
  have hall : ∀ row ∈ rows, row ∈ out.map Prod.fst := by
    intro row hrow
    obtain ⟨chain, hchain⟩ := exists_chain_row hids hacyclic hrow
    exact Categories.mem_visited hids hout hchain hrow
  have hnone : rows.filter (fun row => row.id ∉ out.map (·.1.id)) = [] := by
    refine List.filter_eq_nil_iff.mpr fun row hrow => ?_
    obtain ⟨item, hitem, rfl⟩ := List.mem_map.mp (hall row hrow)
    have hmem : item.1.id ∈ out.map (·.1.id) := List.mem_map_of_mem hitem
    simpa using hmem
  have hplaced : ∀ row ∈ sortRows localeCompare idText rows, row.id ∈
      (attachAll localeCompare idText rows (Categories.childrenOf rows none) 0 []).2.1 := by
    intro row hrow
    have hnode := hall row (mem_sortRows.mp hrow)
    rw [← hsame] at hnode
    obtain ⟨n, hn, rfl⟩ := List.mem_map.mp hnode
    exact (hroots.placed _).mpr (.inr (List.mem_map_of_mem hn))
  rw [buildCategoryTree, htop, attachUnplaced_of_placed hplaced, List.append_nil, hsame, heq, hnone,
    sortSiblings, List.mergeSort_nil, List.map_nil, List.append_nil, List.map_map]
  rfl

include hids hacyclic hclosed in
theorem serverAgrees (hnames : ∀ row ∈ rows, row.name ≠ "") (horder : OneOrder localeCompare rows)
    (separator : String) : ServerAgrees localeCompare idText rows separator where
  paths := by
    have hrows := @buildCategoryTree_rows localeCompare idText rows hids hacyclic hclosed horder
      separator
    have hperm := Categories.treePaths_perm hids separator
    have hnodup : ((treePaths rows separator).map Prod.fst).Nodup :=
      hperm.nodup_iff.mpr (List.Nodup.of_map _ hids)
    have hpaths : ∀ item ∈ treePaths rows separator,
        (item.1, categoryPath rows item.1.id separator) = item := by
      intro item hitem
      have hrow : item.1 ∈ rows := hperm.subset (List.mem_map_of_mem hitem)
      obtain ⟨chain, hchain⟩ := exists_chain_row hids hacyclic hrow
      have hmem := (Categories.rendered_treePaths hids separator hrow hchain).path
      rw [← categoryPath_eq hids hacyclic hclosed hnames hchain hrow] at hmem
      exact List.inj_on_of_nodup_map hnodup hmem hitem rfl
    calc (flattenTree (buildCategoryTree localeCompare idText rows)).map
          (fun n => (n.node, categoryPath rows n.node.id separator))
        = ((flattenTree (buildCategoryTree localeCompare idText rows)).map (·.node)).map
            (fun row => (row, categoryPath rows row.id separator)) := by rw [List.map_map]; rfl
      _ = ((treePaths rows separator).map Prod.fst).map
            (fun row => (row, categoryPath rows row.id separator)) := by rw [hrows]
      _ = treePaths rows separator := by
        rw [List.map_map]
        exact (List.map_congr_left hpaths).trans (List.map_id _)
  descendants := fun _ _ => mem_descendantIds
  ancestors := ancestorIds_eq hids

end Forest

/-- Every row once, the first ones at depth 0 and every other one below its parent. -/
structure RenderedOnce (rows : List PartCategory) (tree : List CategoryTreeNode) : Prop where
  complete : ((flattenTree tree).map (·.node)).Perm rows
  leveled : Leveled 0 tree

/-- The browser renders each row once, and over a forest in one order what the server lists. -/
theorem renderedAlike (localeCompare : String → String → ℤ) (idText : Uuid → String)
    (hids : (rows.map (·.id)).Nodup) (hnames : ∀ row ∈ rows, row.name ≠ "") :
    RenderedOnce rows (buildCategoryTree localeCompare idText rows) ∧
      (Acyclic (loadParentMap rows).get → ClosedRows rows → OneOrder localeCompare rows →
        ∀ separator, ServerAgrees localeCompare idText rows separator) :=
  ⟨⟨buildCategoryTree_perm hids, attachAll_leveled.append attachUnplaced_leveled⟩,
    fun hacyclic hclosed horder separator =>
      serverAgrees hids hacyclic hclosed hnames horder separator⟩

def codePointCompare (a b : String) : ℤ := if a < b then -1 else if a = b then 0 else 1

theorem acyclic_sample :
    Acyclic (loadParentMap [Categories.sampleCeramic, Categories.sampleCapacitors]).get := by
  have hstep : ∀ a p,
      (loadParentMap [Categories.sampleCeramic, Categories.sampleCapacitors]).get a = some p →
        a = 2 ∧ p = 1 := by
    intro a p hget
    by_cases ha : a = 2
    · rw [ha] at hget
      exact ⟨ha, (Option.some.inj hget).symm⟩
    · have hnone : (loadParentMap [Categories.sampleCeramic, Categories.sampleCapacitors]).get a =
          none := by
        by_cases hone : a = 1
        · rw [hone]
          rfl
        · refine Categories.ParentMap.get_of_not_mem fun hmem => ?_
          rcases List.mem_cons.mp hmem with htwo | hrest
          · exact ha htwo
          · exact hone (List.mem_singleton.mp hrest)
      rw [hnone] at hget
      cases hget
  intro a hcycle
  have hfirst : a = 2 := by
    obtain ⟨b, hab, -⟩ := Relation.TransGen.head'_iff.mp hcycle
    exact (hstep a b hab).1
  have hlast : a = 1 := by
    obtain ⟨b, -, hba⟩ := Relation.TransGen.tail'_iff.mp hcycle
    exact (hstep b a hba).2
  exact absurd (hfirst.symm.trans hlast) (by decide)

theorem oneOrder_sample :
    OneOrder codePointCompare [Categories.sampleCeramic, Categories.sampleCapacitors] := by
  refine ⟨fun text => by simp [codePointCompare], ?_, by decide⟩
  decide

theorem renderedAlike_sample :
    RenderedOnce [Categories.sampleLoop, Categories.sampleCeramic, Categories.sampleCapacitors]
        (buildCategoryTree codePointCompare toString
          [Categories.sampleLoop, Categories.sampleCeramic, Categories.sampleCapacitors]) ∧
      ServerAgrees codePointCompare toString
        [Categories.sampleCeramic, Categories.sampleCapacitors] " / " :=
  ⟨(renderedAlike codePointCompare toString (by decide) (by decide)).1,
    (renderedAlike codePointCompare toString (by decide) (by decide)).2 acyclic_sample
      (by unfold ClosedRows; decide)
      oneOrder_sample " / "⟩

end StockManager.WebTree
