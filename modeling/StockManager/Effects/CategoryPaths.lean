import StockManager.Library.ParentChain
import StockManager.Model.Categories

/-! # The rows `tree_paths` visits

Over categories with distinct ids the walk from the roots visits each category whose listed
parents end at a root, in depth-first order and under the joined names of its chain. -/

namespace StockManager.Categories

open DepthFirst ParentChain

variable {categories : List PartCategory} {separator : String} {c d p : PartCategory}

/-- The category that the list has for its parent. -/
def parentRow (categories : List PartCategory) (c : PartCategory) : Option PartCategory :=
  (listedParent categories c).bind fun id => categories.find? fun row => row.id = id

def rowChildren (categories : List PartCategory) (c : PartCategory) : List PartCategory :=
  childrenOf categories (some c.id)

def pathPrefix (separator : String) (above : List PartCategory) : String :=
  above.foldl (fun text row => text ++ row.name ++ separator) ""

theorem mem_sortSiblings {rows : List PartCategory} : c ∈ sortSiblings rows ↔ c ∈ rows :=
  List.mem_mergeSort

theorem mem_childrenOf {parent : Option Uuid} :
    c ∈ childrenOf categories parent ↔ c ∈ categories ∧ listedParent categories c = parent := by
  simp [childrenOf, mem_sortSiblings]

theorem pairwise_childrenOf (parent : Option Uuid) :
    (childrenOf categories parent).Pairwise fun a b => siblingKey a ≤ siblingKey b := by
  have hsorted := @List.pairwise_mergeSort _ (fun a b => decide (siblingKey a ≤ siblingKey b))
    (fun a b c hab hbc => by simpa using le_trans (of_decide_eq_true hab) (of_decide_eq_true hbc))
    (fun a b => by simpa using le_total (siblingKey a) (siblingKey b))
    (categories.filter fun category => listedParent categories category = parent)
  simpa [childrenOf, sortSiblings] using hsorted

theorem nodup_childrenOf (hids : (categories.map (·.id)).Nodup) (parent : Option Uuid) :
    ((childrenOf categories parent).map (·.id)).Nodup := by
  have hperm := List.mergeSort_perm (categories.filter fun category =>
    listedParent categories category = parent) fun a b => decide (siblingKey a ≤ siblingKey b)
  exact (hperm.map (·.id)).nodup_iff.mpr (hids.sublist (List.filter_sublist.map _))

theorem eq_of_id (hids : (categories.map (·.id)).Nodup) (hc : c ∈ categories) (hd : d ∈ categories)
    (h : c.id = d.id) : c = d :=
  List.inj_on_of_nodup_map hids hc hd h

theorem find_id (hids : (categories.map (·.id)).Nodup) {id : Uuid} :
    categories.find? (fun row => row.id = id) = some p ↔ p ∈ categories ∧ p.id = id := by
  constructor
  · intro h
    exact ⟨List.mem_of_find?_eq_some h, by simpa using List.find?_some h⟩
  · rintro ⟨hp, rfl⟩
    cases hfind : categories.find? fun row => row.id = p.id with
    | none => exact absurd (decide_eq_true rfl) (List.find?_eq_none.mp hfind p hp)
    | some row =>
      have hrow : row.id = p.id := by simpa using List.find?_some hfind
      rw [eq_of_id hids (List.mem_of_find?_eq_some hfind) hp hrow]

theorem parentRow_eq_some (hids : (categories.map (·.id)).Nodup) :
    parentRow categories c = some p ↔ p ∈ categories ∧ listedParent categories c = some p.id := by
  rw [parentRow, Option.bind_eq_some_iff]
  constructor
  · rintro ⟨id, hid, hfind⟩
    obtain ⟨hp, rfl⟩ := (find_id hids).mp hfind
    exact ⟨hp, hid⟩
  · exact fun h => ⟨p.id, h.2, (find_id hids).mpr ⟨h.1, rfl⟩⟩

theorem parentRow_eq_none (hids : (categories.map (·.id)).Nodup) :
    parentRow categories c = none ↔ listedParent categories c = none := by
  constructor
  · intro h
    cases hlisted : listedParent categories c with
    | none => rfl
    | some id =>
      have hmem : id ∈ categories.map (·.id) := by
        simpa using (Option.mem_filter_iff.mp hlisted).2
      obtain ⟨row, hrow, rfl⟩ := List.mem_map.mp hmem
      rw [(parentRow_eq_some hids).mpr ⟨hrow, hlisted⟩] at h
      exact absurd h (Option.some_ne_none row)
  · intro h
    rw [parentRow, h]
    rfl

theorem mem_rowChildren (hids : (categories.map (·.id)).Nodup) (hp : p ∈ categories) :
    c ∈ rowChildren categories p ↔ c ∈ categories ∧ parentRow categories c = some p := by
  rw [rowChildren, mem_childrenOf, parentRow_eq_some hids]
  exact ⟨fun h => ⟨h.1, hp, h.2⟩, fun h => ⟨h.1, h.2.2⟩⟩

theorem chain_subset {chain : List PartCategory} (hids : (categories.map (·.id)).Nodup)
    (h : Chain (parentRow categories) c chain) (hc : c ∈ categories) : ∀ b ∈ chain, b ∈ categories :=
  h.forall_mem (fun _ _ _ hp => ((parentRow_eq_some hids).mp hp).1) hc

theorem pathPrefix_append (above : List PartCategory) (name : String) :
    pathPrefix separator above ++ name = separator.intercalate (above.map (·.name) ++ [name]) := by
  induction above using List.reverseRecOn generalizing name with
  | nil => simp [pathPrefix]
  | append_singleton above last ih =>
    have hsplit := String.intercalate_append_of_ne_nil (s := separator)
      (l := above.map (·.name) ++ [last.name]) (m := [name]) (by simp) (List.cons_ne_nil _ _)
    rw [String.intercalate_singleton] at hsplit
    rw [pathPrefix, List.foldl_append, List.foldl_cons, List.foldl_nil, ← pathPrefix, ih,
      List.map_append, List.map_singleton, hsplit]

def Item (categories : List PartCategory) (separator : String) (n : ℕ)
    (item : PartCategory × String) : Prop :=
  item.1 ∈ categories ∧ ∃ above, Chain (parentRow categories) item.1 (above ++ [item.1]) ∧
    above.length = n ∧ item.2 = pathPrefix separator above

def rootItems (categories : List PartCategory) : List (PartCategory × String) :=
  (childrenOf categories none).map fun category => (category, "")

theorem item_root (hids : (categories.map (·.id)).Nodup) {item : PartCategory × String}
    (h : item ∈ rootItems categories) : Item categories separator 0 item := by
  obtain ⟨c, hc, rfl⟩ := List.mem_map.mp h
  obtain ⟨hmem, hroot⟩ := mem_childrenOf.mp hc
  exact ⟨hmem, [], .root ((parentRow_eq_none hids).mpr hroot), rfl, rfl⟩

theorem item_child (hids : (categories.map (·.id)).Nodup) {n : ℕ} {item : PartCategory × String}
    (h : Item categories separator n item) :
    ∀ child ∈ (pathGraph categories separator).children item,
      Item categories separator (n + 1) child := by
  obtain ⟨hmem, above, hchain, hlength, hprefix⟩ := h
  intro child hchild
  obtain ⟨d, hd, rfl⟩ := List.mem_map.mp hchild
  obtain ⟨hdmem, hparent⟩ := (mem_rowChildren hids hmem).mp hd
  refine ⟨hdmem, above ++ [item.1], .step hparent hchain, ?_, ?_⟩
  · rw [List.length_append, List.length_singleton, hlength]
  · rw [pathPrefix, List.foldl_append, List.foldl_cons, List.foldl_nil, ← pathPrefix, hprefix]

theorem exists_visits_items (hids : (categories.map (·.id)).Nodup) (separator : String) :
    ∃ out, Visits (pathGraph categories separator).children (rootItems categories) out := by
  have hbound : ∀ n item, Item categories separator n item → n ≤ categories.length := by
    intro n item ⟨hmem, above, hchain, hlength, _⟩
    have hsub : above ++ [item.1] ⊆ categories := chain_subset hids hchain hmem
    have hle := (List.subperm_of_subset hchain.nodup hsub).length_le
    rw [List.length_append] at hle
    omega
  exact exists_visits hbound (fun n item h => item_child hids h) fun item hitem => ⟨0, item_root hids hitem⟩

theorem visits_rows {stack out : List (PartCategory × String)}
    (h : Visits (pathGraph categories separator).children stack out) :
    Visits (rowChildren categories) (stack.map Prod.fst) (out.map Prod.fst) := by
  refine h.map fun item => ?_
  rw [pathGraph, List.map_map]
  exact (List.map_id _).symm

def idChildren (categories : List PartCategory) (id : Uuid) : List Uuid :=
  (childrenOf categories (some id)).map (·.id)

theorem singleParent_ids (hids : (categories.map (·.id)).Nodup) :
    SingleParent (idChildren categories) := by
  intro child a b ha hb
  obtain ⟨c, hc, rfl⟩ := List.mem_map.mp ha
  obtain ⟨d, hd, hsame⟩ := List.mem_map.mp hb
  obtain ⟨hcmem, hclisted⟩ := mem_childrenOf.mp hc
  obtain ⟨hdmem, hdlisted⟩ := mem_childrenOf.mp hd
  rw [eq_of_id hids hdmem hcmem hsame] at hdlisted
  exact Option.some.inj (hclisted.symm.trans hdlisted)

theorem nodup_visited_ids (hids : (categories.map (·.id)).Nodup)
    {out : List (PartCategory × String)}
    (h : Visits (pathGraph categories separator).children (rootItems categories) out) :
    (out.map (·.1.id)).Nodup := by
  have hvisits : Visits (idChildren categories) ((rootItems categories).map (·.1.id))
      (out.map (·.1.id)) := h.map fun item => by
    rw [pathGraph, List.map_map]
    rfl
  refine hvisits.nodup (singleParent_ids hids) (fun id => nodup_childrenOf hids _) ?_
  rw [rootItems, List.map_map]
  refine (nodup_childrenOf hids none).imp_of_mem fun ha hb hne => ?_
  have hroot : ∀ x ∈ (childrenOf categories none).map (·.id), ∀ y,
      IsChild (idChildren categories) x y → False := by
    intro x hx y hchild
    obtain ⟨c, hc, rfl⟩ := List.mem_map.mp hx
    obtain ⟨d, hd, hsame⟩ := List.mem_map.mp hchild
    obtain ⟨hcmem, hclisted⟩ := mem_childrenOf.mp hc
    obtain ⟨hdmem, hdlisted⟩ := mem_childrenOf.mp hd
    rw [eq_of_id hids hdmem hcmem hsame, hclisted] at hdlisted
    exact absurd hdlisted (Option.some_ne_none _).symm
  constructor
  · intro hunder
    rcases Relation.ReflTransGen.cases_head hunder with heq | ⟨y, hy, -⟩
    · exact hne heq
    · exact hroot _ ha y hy
  · intro hunder
    rcases Relation.ReflTransGen.cases_head hunder with heq | ⟨y, hy, -⟩
    · exact hne heq.symm
    · exact hroot _ hb y hy

/-- `tree_paths` lists the walk from the roots, then the rows it missed under their own names. -/
theorem treePaths_eq (hids : (categories.map (·.id)).Nodup) (separator : String) :
    ∃ out, Visits (pathGraph categories separator).children (rootItems categories) out ∧
      treePaths categories separator = out.map (fun item => (item.1, item.2 ++ item.1.name)) ++
        (sortSiblings (categories.filter fun c => c.id ∉ out.map (·.1.id))).map
          fun c => (c, c.name) := by
  obtain ⟨out, hout⟩ := exists_visits_items hids separator
  have hwalk := Graph.walk_of_visits hout (nodup_visited_ids hids hout)
  refine ⟨out, hout, ?_⟩
  rw [treePaths, ← rootItems, hwalk]

end StockManager.Categories
