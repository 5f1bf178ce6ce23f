import StockManager.Effects.EdaRows
import StockManager.Model.EdaPackage

/-! # What packaging changes in a stored entry (domain/eda/pcm.py) -/

namespace StockManager.Sexpr

theorem isProperty_node {key : Text} {child : Item} (h : isProperty key child = true) :
    ∃ members, child = .node members := by
  cases child with
  | atom a => cases h
  | node members => exact ⟨members, rfl⟩

theorem replaceProperty_of_getProperty {node : Node} {key current : Text} (value : Text)
    (h : getProperty node key = some current) :
    ∃ before child after, node = before ++ child :: after ∧ isProperty key child = true ∧
      replaceProperty key value node = some (before ++ withValue value child :: after) := by
  induction node with
  | nil => cases h
  | cons first rest ih =>
    by_cases hfirst : isProperty key first = true
    · refine ⟨[], first, rest, rfl, hfirst, ?_⟩
      rw [replaceProperty, if_pos hfirst]
      rfl
    · rw [getProperty, List.findSome?_cons, if_neg hfirst] at h
      obtain ⟨before, child, after, rfl, hchild, hreplace⟩ := ih h
      refine ⟨first :: before, child, after, rfl, hchild, ?_⟩
      rw [replaceProperty, if_neg hfirst, hreplace]
      rfl

/-- Two nodes that differ in the value of one property. -/
def ValueChanged (key value : Text) (node node' : Node) : Prop :=
  ∃ before child after, node = before ++ child :: after ∧ isProperty key child = true ∧
    node' = before ++ withValue value child :: after

theorem setProperty_of_getProperty {node : Node} {key current : Text} (value : Text)
    (h : getProperty node key = some current) :
    ValueChanged key value node (setProperty node key value) := by
  obtain ⟨before, child, after, hnode, hchild, hreplace⟩ := replaceProperty_of_getProperty value h
  refine ⟨before, child, after, hnode, hchild, ?_⟩
  rw [setProperty, hreplace]

theorem depth_withValue_le (value : Text) (child : Item) :
    depth (withValue value child) ≤ depth child := by
  cases child with
  | atom a => exact Nat.le_refl _
  | node members =>
    rw [withValue, depth, depth, Nat.add_le_add_iff_right, depthAll_le]
    intro member hmember
    obtain hold | hnew := List.mem_append.mp hmember
    · exact depth_le_depthAll (List.mem_of_mem_take hold)
    · obtain rfl | hold := List.mem_cons.mp hnew
      · exact Nat.zero_le _
      · exact depth_le_depthAll (List.mem_of_mem_drop hold)

section ValueChanged

variable {key value : Text} {node node' : Node}

theorem ValueChanged.depth_le (h : ValueChanged key value node node') :
    depth (.node node') ≤ depth (.node node) := by
  obtain ⟨before, child, after, rfl, _, rfl⟩ := h
  rw [depth, depth, Nat.add_le_add_iff_right, depthAll_le]
  intro member hmember
  obtain hbefore | hmember := List.mem_append.mp hmember
  · exact depth_le_depthAll (List.mem_append_left _ hbefore)
  obtain rfl | hafter := List.mem_cons.mp hmember
  · exact (depth_withValue_le value child).trans
      (depth_le_depthAll (List.mem_append_right _ List.mem_cons_self))
  · exact depth_le_depthAll (List.mem_append_right _ (List.mem_cons_of_mem _ hafter))

theorem ValueChanged.stable (h : ValueChanged key value node node') (hnode : Stable node) :
    Stable node' := by
  refine ⟨?_, h.depth_le.trans hnode.shallow⟩
  obtain ⟨before, child, after, rfl, hchild, rfl⟩ := h
  obtain ⟨members, rfl⟩ := isProperty_node hchild
  have hmarked := requotedAll_eq_self.mp hnode.marked
  rw [requotedAll_eq_self]
  intro member hmember
  obtain hbefore | hmember := List.mem_append.mp hmember
  · exact hmarked member (List.mem_append_left _ hbefore)
  obtain rfl | hafter := List.mem_cons.mp hmember
  · have hold := hmarked (.node members) (List.mem_append_right _ List.mem_cons_self)
    rw [requoted_node, requotedAll_eq_self] at hold
    rw [withValue, requoted_node, requotedAll_eq_self]
    intro inner hinner
    obtain hin | hin := List.mem_append.mp hinner
    · exact hold inner (List.mem_of_mem_take hin)
    · obtain rfl | hin := List.mem_cons.mp hin
      · rfl
      · exact hold inner (List.mem_of_mem_drop hin)
  · exact hmarked member (List.mem_append_right _ (List.mem_cons_of_mem _ hafter))

theorem ValueChanged.named (h : ValueChanged key value node node') {name root : Text}
    (hhead : head node = some root) (hname : entryName node = .ok name) :
    head node' = some root ∧ entryName node' = .ok name := by
  obtain ⟨before, child, after, hnode, hchild, rfl⟩ := h
  obtain ⟨members, rfl⟩ := isProperty_node hchild
  obtain ⟨first, a, rest, rfl, rfl⟩ := exists_of_entryName hname
  match before with
  | [] =>
    obtain ⟨rfl, _⟩ := List.cons.inj hnode
    cases hhead
  | [_] =>
    obtain ⟨_, htail⟩ := List.cons.inj hnode
    cases (List.cons.inj htail).1
  | second :: third :: before =>
    obtain ⟨rfl, htail⟩ := List.cons.inj hnode
    obtain ⟨rfl, _⟩ := List.cons.inj htail
    exact ⟨hhead, rfl⟩

end ValueChanged

theorem Stable.appendModel {node : Node} (h : Stable node) (path : Text) :
    Stable (appendModel node path) := by
  rw [stable_iff] at h ⊢
  intro member hmember
  obtain hold | hnew := List.mem_append.mp hmember
  · exact h member hold
  · obtain rfl := List.mem_singleton.mp hnew
    have hdepth : depth (.node [bare "model", quoted path, xyz "offset" "0", xyz "scale" "1",
        xyz "rotate" "0"]) = 3 := rfl
    have hmax : maxDepth = 32 := rfl
    exact ⟨rfl, by omega⟩

theorem modelPaths_appendModel (node : Node) (path : Text) :
    modelPaths (appendModel node path) = modelPaths node ++ [path] := by
  rw [modelPaths, appendModel, List.filterMap_append]
  rfl

theorem appendModel_named {node : Node} {name root : Text} (path : Text)
    (hhead : head node = some root) (hname : entryName node = .ok name) :
    head (appendModel node path) = some root ∧ entryName (appendModel node path) = .ok name := by
  obtain ⟨first, a, rest, rfl, rfl⟩ := exists_of_entryName hname
  exact ⟨hhead, rfl⟩

theorem modelPaths_rewriteModelPaths (node : Node) (f : Text → Option Text) :
    modelPaths (rewriteModelPaths node f) = (modelPaths node).filterMap f := by
  rw [modelPaths, rewriteModelPaths_eq, modelPaths, List.filterMap_filterMap,
    List.filterMap_filterMap]
  apply List.filterMap_congr
  intro child _
  cases hpath : modelPath? child with
  | none => simp [rewriteModelPath_of_none hpath, hpath]
  | some path =>
    obtain ⟨first, a, rest, rfl, rfl⟩ := modelPath?_eq_some hpath
    rw [rewriteModelPath_model f hpath, Option.bind_some]
    cases hf : f a.text with
    | none => rfl
    | some replacement => exact modelPath?_model first a ⟨replacement, true⟩ rest hpath

end StockManager.Sexpr

namespace StockManager.Eda

open Sexpr (Text Node Stable)

variable {node : Node} {identifier : Text} {models : List Text} {footprints : List StoredEntry}

def packagedSymbol (footprints : List StoredEntry) (node : Node) : Node :=
  match repointed footprints node with
  | none => node
  | some target => Sexpr.setProperty node footprintProperty target

theorem repointed_ok {target : Text} (h : repointed footprints node = some target) :
    ∃ current f, Sexpr.getProperty node footprintProperty = some current ∧ f ∈ footprints ∧
      f.name = afterLast ':' current ∧ target = stemNickname f.stem ++ ':' :: f.name := by
  rw [repointed, Option.bind_eq_bind, Option.bind_eq_some_iff] at h
  obtain ⟨current, hcurrent, h⟩ := h
  obtain ⟨nickname, hnickname, h⟩ := Option.bind_eq_some_iff.mp h
  rw [footprintLibrary, Option.map_eq_some_iff] at hnickname
  obtain ⟨f, hf, rfl⟩ := hnickname
  have hname := List.find?_some hf
  simp only [decide_eq_true_eq] at hname
  dsimp only at h
  split_ifs at h
  obtain rfl := Option.some.inj h
  exact ⟨current, f, (Option.filter_eq_some_iff.mp hcurrent).1,
    List.mem_reverse.mp (List.mem_of_find?_eq_some hf), hname, by rw [hname]⟩

/-- The symbol ships as it is stored, or with its `Footprint` value naming a packaged
footprint of the name it had. -/
theorem packagedSymbol_cases (footprints : List StoredEntry) (node : Node) :
    packagedSymbol footprints node = node ∨
      ∃ current f, Sexpr.getProperty node footprintProperty = some current ∧ f ∈ footprints ∧
        f.name = afterLast ':' current ∧
        Sexpr.ValueChanged footprintProperty (stemNickname f.stem ++ ':' :: f.name) node
          (packagedSymbol footprints node) := by
  unfold packagedSymbol
  cases hrepointed : repointed footprints node with
  | none => exact Or.inl rfl
  | some target =>
    obtain ⟨current, f, hcurrent, hf, hname, rfl⟩ := repointed_ok hrepointed
    exact Or.inr ⟨current, f, hcurrent, hf, hname, Sexpr.setProperty_of_getProperty _ hcurrent⟩

theorem stable_packagedSymbol (h : Stable node) :
    Stable (packagedSymbol footprints node) := by
  obtain heq | ⟨_, _, _, _, _, hchanged⟩ := packagedSymbol_cases footprints node
  · rw [heq]
    exact h
  · exact hchanged.stable h

theorem depth_packagedSymbol_le (footprints : List StoredEntry) (node : Node) :
    Sexpr.depth (.node (packagedSymbol footprints node)) ≤ Sexpr.depth (.node node) := by
  obtain heq | ⟨_, _, _, _, _, hchanged⟩ := packagedSymbol_cases footprints node
  · rw [heq]
  · exact hchanged.depth_le

theorem packagedSymbol_named {name root : Text}
    (hhead : Sexpr.head node = some root) (hname : Sexpr.entryName node = .ok name) :
    Sexpr.head (packagedSymbol footprints node) = some root ∧
      Sexpr.entryName (packagedSymbol footprints node) = .ok name := by
  obtain heq | ⟨_, _, _, _, _, hchanged⟩ := packagedSymbol_cases footprints node
  · rw [heq]
    exact ⟨hhead, hname⟩
  · exact hchanged.named hhead hname

theorem parseStored_encode (h : Stable node) (what : String) :
    parseStored (encode (Sexpr.emit node)) what = .ok node := by
  rw [parseStored, decode_encode, Option.bind_some, h.parse_emit]
  rfl

theorem symbolForPackage_stored (footprints : List StoredEntry) (h : Stable node) :
    symbolForPackage footprints (encode (Sexpr.emit node)) =
      .ok (encode (Sexpr.emit (packagedSymbol footprints node))) := by
  unfold symbolForPackage packagedSymbol
  simp only [parseStored_encode h, bind, Except.bind]
  cases repointed footprints node with
  | none => rfl
  | some target => rfl

def packagedFootprint (identifier : Text) (models : List Text) (node : Node) : Node :=
  appendModels identifier models (Sexpr.rewriteModelPaths node (installedPath identifier))

theorem footprintForPackage_stored (identifier : Text) (models : List Text) (h : Stable node) :
    footprintForPackage identifier models (encode (Sexpr.emit node)) =
      .ok (encode (Sexpr.emit (packagedFootprint identifier models node))) := by
  rw [footprintForPackage, parseStored_encode h]
  rfl

theorem appendModels_keeps {P : Node → Prop} (hstep : ∀ node, ∀ name ∈ models, P node →
      pcmModelPath identifier name ∉ Sexpr.modelPaths node →
        P (Sexpr.appendModel node (pcmModelPath identifier name)))
    (h : P node) : P (appendModels identifier models node) := by
  induction models generalizing node with
  | nil => exact h
  | cons name rest ih =>
    rw [appendModels, List.foldl_cons]
    apply ih fun node name hname => hstep node name (List.mem_cons_of_mem _ hname)
    split_ifs with hpresent
    · exact h
    · exact hstep node name List.mem_cons_self h hpresent

theorem stable_packagedFootprint
    (h : Stable node) : Stable (packagedFootprint identifier models node) :=
  appendModels_keeps (fun _ name _ hnode _ => hnode.appendModel (pcmModelPath identifier name))
    (h.rewriteModelPaths _)

/-- Packaging keeps the head and the name of a footprint. -/
theorem packagedFootprint_named {name root : Text} (hhead : Sexpr.head node = some root)
    (hname : Sexpr.entryName node = .ok name) :
    Sexpr.head (packagedFootprint identifier models node) = some root ∧
      Sexpr.entryName (packagedFootprint identifier models node) = .ok name :=
  appendModels_keeps (P := fun node => Sexpr.head node = some root ∧ Sexpr.entryName node = .ok name)
    (fun _ model _ hnode _ => Sexpr.appendModel_named (pcmModelPath identifier model) hnode.1 hnode.2)
    (Sexpr.rewriteModelPaths_named _ hhead hname)

theorem mem_modelPaths_packagedFootprint
    {path : Text} (h : path ∈ Sexpr.modelPaths (packagedFootprint identifier models node)) :
    (∃ stored ∈ Sexpr.modelPaths node, installedPath identifier stored = some path) ∨
      ∃ name ∈ models, path = pcmModelPath identifier name := by
  revert path
  apply appendModels_keeps (P := fun written => ∀ {path}, path ∈ Sexpr.modelPaths written →
    (∃ stored ∈ Sexpr.modelPaths node, installedPath identifier stored = some path) ∨
      ∃ name ∈ models, path = pcmModelPath identifier name)
  · intro written name hname hwritten _ path hpath
    rw [Sexpr.modelPaths_appendModel, List.mem_append, List.mem_singleton] at hpath
    obtain hpath | rfl := hpath
    · exact hwritten hpath
    · exact Or.inr ⟨name, hname, rfl⟩
  · intro path hpath
    rw [Sexpr.modelPaths_rewriteModelPaths] at hpath
    exact Or.inl (List.mem_filterMap.mp hpath)

theorem count_modelPaths_packagedFootprint (identifier : Text) (models : List Text) (node : Node)
    (path : Text) : (Sexpr.modelPaths (packagedFootprint identifier models node)).count path ≤
      max 1 (((Sexpr.modelPaths node).filterMap (installedPath identifier)).count path) := by
  apply appendModels_keeps (P := fun written => (Sexpr.modelPaths written).count path ≤
    max 1 (((Sexpr.modelPaths node).filterMap (installedPath identifier)).count path))
  · intro written name _ hwritten hfresh
    rw [Sexpr.modelPaths_appendModel, List.count_append]
    by_cases heq : pcmModelPath identifier name = path
    · rw [heq] at hfresh ⊢
      rw [List.count_eq_zero.mpr hfresh, List.count_singleton_self]
      omega
    · rw [List.count_singleton, if_neg (by simpa using heq)]
      exact hwritten
  · rw [Sexpr.modelPaths_rewriteModelPaths]
    omega

end StockManager.Eda
