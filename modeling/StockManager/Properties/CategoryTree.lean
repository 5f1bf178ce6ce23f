import StockManager.Effects.CategoryPaths
import StockManager.Effects.CategoryWalks

/-! # The rendered category tree

`tree_paths` returns every category once; those whose listed parents end at a root come in
depth-first order under the names of their chain. The walks over a parent map agree with one
another where it has no cycle. -/

namespace StockManager.Categories

open DepthFirst ParentChain

variable {categories : List PartCategory} {separator : String} {c d a : PartCategory}

/-- `a` is a listed ancestor of `d`. -/
def Below (categories : List PartCategory) : PartCategory → PartCategory → Prop :=
  Relation.TransGen (IsParent (parentRow categories))

theorem reflTransGen_of_under (hids : (categories.map (·.id)).Nodup)
    (h : Under (rowChildren categories) d a) (ha : a ∈ categories) :
    d ∈ categories ∧ Relation.ReflTransGen (IsParent (parentRow categories)) d a := by
  induction h using Relation.ReflTransGen.head_induction_on with
  | refl => exact ⟨ha, .refl⟩
  | head hchild _ ih =>
    obtain ⟨hmem, hparent⟩ := (mem_rowChildren hids ih.1).mp hchild
    exact ⟨hmem, .head hparent ih.2⟩

theorem under_of_reflTransGen (hids : (categories.map (·.id)).Nodup)
    (h : Relation.ReflTransGen (IsParent (parentRow categories)) d a) (hd : d ∈ categories) :
    Under (rowChildren categories) d a ∧ a ∈ categories := by
  induction h with
  | refl => exact ⟨.refl, hd⟩
  | tail _ hparent ih =>
    have hmem := ((parentRow_eq_some hids).mp hparent).1
    exact ⟨ih.1.tail ((mem_rowChildren hids hmem).mpr ⟨ih.2, hparent⟩), hmem⟩

theorem mem_below_iff (hids : (categories.map (·.id)).Nodup) {below : List PartCategory}
    (h : Visits (rowChildren categories) (rowChildren categories c) below) (hc : c ∈ categories) :
    d ∈ below ↔ d ∈ categories ∧ Below categories d c := by
  rw [h.mem_iff]
  constructor
  · rintro ⟨child, hchild, hunder⟩
    obtain ⟨hmem, hparent⟩ := (mem_rowChildren hids hc).mp hchild
    obtain ⟨hd, hchain⟩ := reflTransGen_of_under hids hunder hmem
    exact ⟨hd, Relation.TransGen.tail' hchain hparent⟩
  · rintro ⟨hd, hbelow⟩
    obtain ⟨child, hchain, hparent⟩ := Relation.TransGen.tail'_iff.mp hbelow
    obtain ⟨hunder, hmem⟩ := under_of_reflTransGen hids hchain hd
    exact ⟨child, (mem_rowChildren hids hc).mpr ⟨hmem, hparent⟩, hunder⟩

theorem visits_roots {out : List (PartCategory × String)}
    (h : Visits (pathGraph categories separator).children (rootItems categories) out) :
    Visits (rowChildren categories) (childrenOf categories none) (out.map Prod.fst) := by
  have hroots : (rootItems categories).map Prod.fst = childrenOf categories none := by
    simp [rootItems, Function.comp_def]
  exact hroots ▸ visits_rows h

theorem parentRow_eq_iff (hids : (categories.map (·.id)).Nodup) :
    parentRow categories c = parentRow categories d ↔
      listedParent categories c = listedParent categories d := by
  cases hd : parentRow categories d with
  | none => rw [parentRow_eq_none hids, (parentRow_eq_none hids).mp hd]
  | some p =>
    have hp := (parentRow_eq_some hids).mp hd
    rw [parentRow_eq_some hids, hp.2]
    exact ⟨fun h => h.2, fun h => ⟨hp.1, h⟩⟩

section Rendered

variable (hids : (categories.map (·.id)).Nodup) {out : List (PartCategory × String)}
  (hout : Visits (pathGraph categories separator).children (rootItems categories) out)
include hids hout

theorem item_of_mem {item : PartCategory × String} (h : item ∈ out) :
    ∃ n, Item categories separator n item :=
  hout.forall_mem (P := fun item => ∃ n, Item categories separator n item)
    (fun _ hitem child hchild => hitem.elim fun n hn => ⟨n + 1, item_child hids hn child hchild⟩)
    (fun _ hitem => ⟨0, item_root hids hitem⟩) item h

theorem mem_visited {chain : List PartCategory} (h : Chain (parentRow categories) c chain)
    (hc : c ∈ categories) : c ∈ out.map Prod.fst := by
  have hvisits := visits_roots hout
  induction h with
  | root hroot =>
    exact hvisits.sublist.subset (mem_childrenOf.mpr ⟨hc, (parentRow_eq_none hids).mp hroot⟩)
  | step hparent _ ih =>
    have hp := ((parentRow_eq_some hids).mp hparent).1
    obtain ⟨root, hroot, hunder⟩ := hvisits.mem_iff.mp (ih hp)
    exact hvisits.mem_iff.mpr ⟨root, hroot, .head ((mem_rowChildren hids hp).mpr ⟨hc, hparent⟩) hunder⟩

theorem mem_categories_of_mem {c : PartCategory} (h : c ∈ out.map Prod.fst) : c ∈ categories := by
  obtain ⟨item, hitem, rfl⟩ := List.mem_map.mp h
  obtain ⟨n, hn⟩ := item_of_mem hids hout hitem
  exact hn.1

theorem nodup_visited : (out.map Prod.fst).Nodup := by
  refine List.Nodup.of_map (·.id) ?_
  rw [List.map_map]
  exact nodup_visited_ids hids hout

end Rendered

theorem treePaths_perm (hids : (categories.map (·.id)).Nodup) (separator : String) :
    ((treePaths categories separator).map Prod.fst).Perm categories := by
  obtain ⟨out, hout, heq⟩ := treePaths_eq hids separator
  have hrest : (sortSiblings (categories.filter fun c => c.id ∉ out.map (·.1.id))).Nodup :=
    (List.mergeSort_perm _ _).nodup_iff.mpr ((List.Nodup.of_map _ hids).filter _)
  rw [heq, List.map_append, List.map_map, List.map_map]
  show (out.map Prod.fst ++ (sortSiblings _).map id).Perm categories
  rw [List.map_id]
  refine (List.perm_ext_iff_of_nodup ?_ (List.Nodup.of_map _ hids)).mpr fun c => ?_
  · refine List.nodup_append.mpr ⟨nodup_visited hids hout, hrest, fun a ha b hb hab => ?_⟩
    obtain ⟨item, hitem, rfl⟩ := List.mem_map.mp ha
    have hnot := of_decide_eq_true (List.mem_filter.mp (mem_sortSiblings.mp hb)).2
    exact hnot (hab ▸ List.mem_map_of_mem hitem)
  · rw [List.mem_append, mem_sortSiblings, List.mem_filter]
    constructor
    · rintro (hc | hc)
      · exact mem_categories_of_mem hids hout hc
      · exact hc.1
    · intro hc
      by_cases hvisited : c.id ∈ out.map (·.1.id)
      · obtain ⟨item, hitem, hid⟩ := List.mem_map.mp hvisited
        have hrow := mem_categories_of_mem hids hout (List.mem_map_of_mem hitem)
        exact .inl (eq_of_id hids hrow hc hid ▸ List.mem_map_of_mem hitem)
      · exact .inr ⟨hc, decide_eq_true hvisited⟩

theorem filter_mem_eq {α : Type} [DecidableEq α] {l rows : List α} (h : l.Sublist rows)
    (hnodup : rows.Nodup) : rows.filter (· ∈ l) = l := by
  have hself : l.filter (· ∈ l) = l := List.filter_eq_self.mpr fun x hx => decide_eq_true hx
  have hsub : l.Sublist (rows.filter (· ∈ l)) := by
    have hfilter := h.filter (· ∈ l)
    rwa [hself] at hfilter
  have hperm : (rows.filter (· ∈ l)).Perm l := by
    refine (List.perm_ext_iff_of_nodup (hnodup.filter _) (hnodup.sublist h)).mpr fun x => ?_
    simp only [List.mem_filter, decide_eq_true_eq]
    exact ⟨fun hx => hx.2, fun hx => ⟨h.subset hx, hx⟩⟩
  exact (hsub.eq_of_length hperm.length_eq.symm).symm

/-- Where a category whose listed parents end at a root stands, and under which name. -/
structure Rendered (categories : List PartCategory) (separator : String)
    (rows : List (PartCategory × String)) (c : PartCategory) (chain : List PartCategory) : Prop where
  path : (c, separator.intercalate (chain.map (·.name))) ∈ rows
  afterParent : ∀ p ∈ parentRow categories c, [p, c].Sublist (rows.map Prod.fst)
  block : ∃ before below after, rows.map Prod.fst = before ++ c :: (below ++ after) ∧
    ∀ d, d ∈ below ↔ d ∈ categories ∧ Below categories d c
  siblings : ((rows.map Prod.fst).filter fun s => parentRow categories s = parentRow categories c).Pairwise
    fun a b => siblingKey a ≤ siblingKey b

theorem rendered_treePaths (hids : (categories.map (·.id)).Nodup) (separator : String)
    (hc : c ∈ categories) {chain : List PartCategory} (hchain : Chain (parentRow categories) c chain) :
    Rendered categories separator (treePaths categories separator) c chain := by
  have hperm := treePaths_perm hids separator
  obtain ⟨out, hout, heq⟩ := treePaths_eq hids separator
  have hvisits := visits_roots hout
  have hrows : ∃ rest, (treePaths categories separator).map Prod.fst = out.map Prod.fst ++ rest :=
    ⟨_, by rw [heq, List.map_append, List.map_map]; rfl⟩
  obtain ⟨rest, hrest⟩ := hrows
  have hblock : ∀ {c chain}, Chain (parentRow categories) c chain → c ∈ categories →
      ∃ before below after, (treePaths categories separator).map Prod.fst =
        before ++ c :: (below ++ after) ∧ Visits (rowChildren categories) (rowChildren categories c) below := by
    intro c chain hchain hc
    obtain ⟨before, below, after, hsplit, hbelow⟩ := hvisits.block (mem_visited hids hout hchain hc)
    exact ⟨before, below, after ++ rest, by rw [hrest, hsplit]; simp, hbelow⟩
  refine ⟨?_, ?_, ?_, ?_⟩
  · obtain ⟨item, hitem, rfl⟩ := List.mem_map.mp (mem_visited hids hout hchain hc)
    obtain ⟨n, -, above, habove, -, hprefix⟩ := item_of_mem hids hout hitem
    rw [hchain.unique habove, heq, List.map_append, List.map_singleton, ← pathPrefix_append, ← hprefix]
    exact List.mem_append.mpr (.inl (List.mem_map.mpr ⟨item, hitem, rfl⟩))
  · intro p hp
    have hmem := ((parentRow_eq_some hids).mp hp).1
    cases hchain with
    | root hroot => exact absurd (hroot.symm.trans hp) (Option.some_ne_none p).symm
    | step hparent habove =>
      obtain rfl := Option.some.inj (hparent.symm.trans hp)
      obtain ⟨before, below, after, hsplit, hbelow⟩ := hblock habove hmem
      have hchild : c ∈ below :=
        hbelow.sublist.subset ((mem_rowChildren hids hmem).mpr ⟨hc, hparent⟩)
      rw [hsplit]
      refine List.Sublist.trans (List.Sublist.cons_cons _ ?_) (List.sublist_append_right before _)
      exact List.singleton_sublist.mpr (List.mem_append.mpr (.inl hchild))
  · obtain ⟨before, below, after, hsplit, hbelow⟩ := hblock hchain hc
    exact ⟨before, below, after, hsplit, fun d => mem_below_iff hids hbelow hc⟩
  · have hsub : (childrenOf categories (listedParent categories c)).Sublist
        ((treePaths categories separator).map Prod.fst) := by
      cases hchain with
      | root hroot =>
        rw [(parentRow_eq_none hids).mp hroot, hrest]
        exact hvisits.sublist.trans (List.sublist_append_left _ _)
      | step hparent habove =>
        obtain ⟨hmem, hlisted⟩ := (parentRow_eq_some hids).mp hparent
        obtain ⟨before, below, after, hsplit, hbelow⟩ := hblock habove hmem
        rw [hlisted, hsplit]
        refine hbelow.sublist.trans (List.Sublist.trans ?_ (List.sublist_append_right before _))
        exact (List.sublist_append_left below after).cons _
    have hfilter : ((treePaths categories separator).map Prod.fst).filter (fun s =>
          decide (parentRow categories s = parentRow categories c)) =
        ((treePaths categories separator).map Prod.fst).filter
          (· ∈ childrenOf categories (listedParent categories c)) := by
      refine List.filter_congr fun s hs => decide_eq_decide.mpr ?_
      rw [parentRow_eq_iff hids, mem_childrenOf]
      exact ⟨fun h => ⟨hperm.subset hs, h⟩, fun h => h.2⟩
    rw [hfilter, filter_mem_eq hsub (hperm.nodup_iff.mpr (List.Nodup.of_map _ hids))]
    exact pairwise_childrenOf _

/-- What the walks over a parent map say of one another. -/
structure WalksAgree (m : ParentMap) : Prop where
  descendants : ∀ x y, y ∈ descendantIds m x ↔ x = y ∨ x ∈ ancestorIds m y
  height : ∀ x, IsGreatest {d : ℤ | ∃ y ∈ descendantIds m x, d = depthOf m y - depthOf m x}
    (subtreeHeight m x)

theorem walksAgree {m : ParentMap} (hkeys : (Dict.keys m).Nodup) (hacyclic : Acyclic m.get) :
    WalksAgree m := by
  constructor
  · intro x y
    rw [mem_descendantIds hkeys, mem_ancestorIds hacyclic]
    constructor
    · rintro ⟨_ | n, hn⟩
      · exact .inl (Option.some.inj hn).symm
      · exact .inr ⟨n, hn⟩
    · rintro (rfl | ⟨n, hn⟩)
      · exact ⟨0, rfl⟩
      · exact ⟨n + 1, hn⟩
  · intro x
    obtain ⟨⟨y, hy⟩, hmost⟩ := subtreeHeight_spec (x := x) hkeys hacyclic
    constructor
    · refine ⟨y, (mem_descendantIds hkeys).mpr ⟨_, hy⟩, ?_⟩
      rw [depthOf_of_climb hacyclic hy]
      omega
    · rintro d ⟨z, hz, rfl⟩
      obtain ⟨n, hn⟩ := (mem_descendantIds hkeys).mp hz
      have hle := hmost n z hn
      rw [depthOf_of_climb hacyclic hn]
      omega

/-- The rendered tree is complete, and faithful to every chain that ends at a root. -/
theorem treePaths_faithful (hids : (categories.map (·.id)).Nodup) (separator : String) :
    ((treePaths categories separator).map Prod.fst).Perm categories ∧
      (∀ c ∈ categories, ∀ chain, Chain (parentRow categories) c chain →
        Rendered categories separator (treePaths categories separator) c chain) ∧
      ∀ m : ParentMap, (Dict.keys m).Nodup → Acyclic m.get → WalksAgree m :=
  ⟨treePaths_perm hids separator, fun _ hc _ hchain => rendered_treePaths hids separator hc hchain,
    fun _ hkeys hacyclic => walksAgree hkeys hacyclic⟩

def sampleCapacitors : PartCategory := ⟨1, "Capacitors", 0, none, none⟩
def sampleCeramic : PartCategory := ⟨2, "Ceramic", 0, some 1, none⟩

/-- Listed as its own parent. -/
def sampleLoop : PartCategory := ⟨3, "Loop", 0, some 3, none⟩

theorem treePaths_faithful_sample :
    ((treePaths [sampleCeramic, sampleLoop, sampleCapacitors] " / ").map Prod.fst).Perm
        [sampleCeramic, sampleLoop, sampleCapacitors] ∧
      ("Capacitors / Ceramic" : String) = " / ".intercalate ["Capacitors", "Ceramic"] ∧
      (sampleCeramic, " / ".intercalate ["Capacitors", "Ceramic"]) ∈
        treePaths [sampleCeramic, sampleLoop, sampleCapacitors] " / " := by
  have hall := @treePaths_faithful [sampleCeramic, sampleLoop, sampleCapacitors] (by decide) " / "
  have hrendered := hall.2.1 sampleCeramic (by decide) [sampleCapacitors, sampleCeramic]
    (@Chain.step _ _ _ sampleCapacitors [sampleCapacitors] (by decide) (.root (by decide)))
  exact ⟨hall.1, by decide, hrendered.path⟩

end StockManager.Categories
