import StockManager.Effects.CategoryWalks

/-! # Inherited category settings

Three walks up the category tree, two of them behind a shortcut, compute one function: the
setting of the nearest category, the asked one first, that has one. -/

namespace StockManager.CategorySettings

open Categories (ParentMap loadParentMap ancestorIds ancestorsFrom)

variable {ν : Type} {db rows : List CategoryRow} {workspaceId : Uuid} {c : CategoryRow}

/-- The category itself, then its ancestors, nearest first -/
def chain (rows : List CategoryRow) (c : CategoryRow) : List Uuid :=
  c.id :: ancestorIds (parentMapOf rows) c.id

/-- The nearest category of the chain that has the setting, and its value there -/
def nearest (rows : List CategoryRow) (setting : CategoryRow → Option ν) (c : CategoryRow) :
    Option (ν × Uuid) :=
  (chain rows c).findSome? fun id => (settingOf rows setting id).map fun value => (value, id)

def NoArchivedAncestor (rows : List CategoryRow) : Prop :=
  ∀ c ∈ rows, c.archivedAt = none → ∀ id ∈ ancestorIds (parentMapOf rows) c.id,
    ∀ row ∈ rows, row.id = id → row.archivedAt = none

section Active

variable {active : List CategoryRow} (hrows : OnePerId rows)
  (hactive : ∀ row, row ∈ active ↔ row ∈ rows ∧ row.archivedAt = none)

include hrows hactive

theorem rowById_active {id : Uuid} (h : ∀ row ∈ rows, row.id = id → row.archivedAt = none) :
    rowById active id = rowById rows id := by
  refine Option.ext fun row => ?_
  rw [rowById_eq_some_iff (onePerId_active hrows hactive), rowById_eq_some_iff hrows, hactive]
  constructor
  · rintro ⟨⟨hmem, -⟩, hid⟩
    exact ⟨hmem, hid⟩
  · rintro ⟨hmem, hid⟩
    exact ⟨⟨hmem, h row hmem hid⟩, hid⟩

variable (hnone : NoArchivedAncestor rows) (hc : c ∈ rows) (hcactive : c.archivedAt = none)

include hnone hc hcactive

theorem rowById_chain : ∀ id ∈ chain rows c, rowById active id = rowById rows id := by
  intro id hid
  apply rowById_active hrows hactive
  rcases List.mem_cons.mp hid with rfl | habove
  · intro row hrow hrid
    rw [hrows row hrow c hc hrid]
    exact hcactive
  · exact hnone c hc hcactive id habove

theorem chain_active : chain active c = chain rows c := by
  have hagree : ∀ id ∈ chain rows c, (parentMapOf active).get id = (parentMapOf rows).get id := by
    intro id hid
    rw [get_parentMapOf, get_parentMapOf, settingOf, settingOf,
      rowById_chain hrows hactive hnone hc hcactive id hid]
  rw [chain, chain, ancestorIds_agree (hagree _ (List.mem_cons_self ..))
    fun above habove => hagree above (List.mem_cons_of_mem _ habove)]

theorem nearest_active (setting : CategoryRow → Option ν) : nearest active setting c = nearest rows setting c := by
  rw [nearest, nearest, chain_active hrows hactive hnone hc hcactive]
  apply findSome?_congr
  intro id hid
  rw [settingOf, settingOf, rowById_chain hrows hactive hnone hc hcactive id hid]

end Active

/-- The value of the nearest category that has the setting -/
def inheritedValue (rows : List CategoryRow) (setting : CategoryRow → Option ν) (c : CategoryRow) : Option ν :=
  (nearest rows setting c).map Prod.fst

theorem inheritedValue_eq (setting : CategoryRow → Option ν) :
    inheritedValue rows setting c = (chain rows c).findSome? (settingOf rows setting) := by
  rw [inheritedValue, nearest]
  induction chain rows c with
  | nil => rfl
  | cons id l ih =>
    rw [findSome?_cons_or, findSome?_cons_or, ← ih]
    cases settingOf rows setting id <;> rfl

theorem inheritedValue_own (hrows : OnePerId rows) (hc : c ∈ rows) {setting : CategoryRow → Option ν}
    (h : (setting c).isSome ∨ c.parentId = none) : inheritedValue rows setting c = setting c := by
  rw [inheritedValue_eq, chain, findSome?_cons_or, settingOf_self hrows hc]
  rcases h with h | h
  · rw [Option.or_of_isSome h]
  · have habove : ancestorIds (parentMapOf rows) c.id = [] := by
      rw [ancestorIds, get_parentMapOf, settingOf_self hrows hc, h, ancestorsFrom]
    rw [habove, List.findSome?_nil, Option.or_none]

section Requested

variable {categories : List CategoryRow} {snapshot : Option (List CategoryRow)}

variable (hdb : OnePerId db) (hnone : NoArchivedAncestor (workspaceRows db workspaceId))
  (hcategories : ∀ c ∈ categories, c ∈ workspaceRows db workspaceId ∧ c.archivedAt = none)
  (hsnapshot : ∀ rows ∈ snapshot, Snapshot db workspaceId rows) (hc : c ∈ categories)

include hdb hnone hcategories hsnapshot hc

theorem inheritedValue_walk (setting : CategoryRow → Option ν) :
    inheritedValue (workspaceRows db workspaceId) setting c = (setting c).or
      ((ancestorIds (dictOf (·.parentId) (activeRows db workspaceId snapshot)) c.id).findSome?
        (settingOf (activeRows db workspaceId snapshot) setting)) := by
  obtain ⟨hcws, hcactive⟩ := hcategories c hc
  have hws : OnePerId (workspaceRows db workspaceId) := onePerId_workspace hdb
  have hmem := mem_activeRows hsnapshot
  have hactive := onePerId_active hws hmem
  have hmap : ∀ id, ParentMap.get (dictOf (·.parentId) (activeRows db workspaceId snapshot)) id =
      (parentMapOf (activeRows db workspaceId snapshot)).get id := by
    intro id
    rw [get_dictOf hactive, get_parentMapOf]
  rw [inheritedValue, ← nearest_active hws hmem hnone hcws hcactive, ← inheritedValue, inheritedValue_eq, chain,
    findSome?_cons_or, settingOf_self hactive ((hmem c).mpr ⟨hcws, hcactive⟩),
    ancestorIds_agree (hmap _) fun above _ => hmap above]

theorem rulesByCategory_eq :
    Dict.find c.id (rulesByCategory db workspaceId categories snapshot) =
      some ⟨inheritedValue (workspaceRows db workspaceId) (·.valueTemplate) c,
        inheritedValue (workspaceRows db workspaceId) (fun row => fieldList row.kicadFields) c⟩ := by
  have hws : OnePerId (workspaceRows db workspaceId) := onePerId_workspace hdb
  have hcws := (hcategories c hc).1
  rw [find_rulesByCategory hdb hcategories hc hsnapshot, inherited]
  split
  next hcomplete =>
    obtain ⟨htemplate, hfields⟩ : c.valueTemplate.isSome = true ∧ (fieldList c.kicadFields).isSome = true :=
      Bool.and_eq_true_iff.mp hcomplete
    rw [inheritedValue_own hws hcws (.inl htemplate), inheritedValue_own hws hcws (.inl hfields), ownRules]
  next =>
    have hactive := onePerId_active hws (mem_activeRows hsnapshot)
    rw [ancestorIds, inheritedFrom_eq (get_dictOf hactive) (find_dictOf hactive ownRules), ← ancestorIds,
      inheritedValue_walk hdb hnone hcategories hsnapshot hc,
      inheritedValue_walk hdb hnone hcategories hsnapshot hc]
    rfl

theorem refdesPrefixes_eq :
    Dict.find c.id (refdesPrefixes db workspaceId categories snapshot) =
      some (inheritedValue (workspaceRows db workspaceId) ownPrefix c) := by
  have hws : OnePerId (workspaceRows db workspaceId) := onePerId_workspace hdb
  have hcws := (hcategories c hc).1
  have hown := find_categories hdb hcategories hc ownPrefix
  rw [refdesPrefixes]
  split
  next =>
    have hactive := onePerId_active hws (mem_activeRows hsnapshot)
    rw [Dict.find_map_values fun id found => Option.or found (inheritedPrefix _ (ancestorIds _ id)), hown,
      Option.map_some, ancestorIds, inheritedPrefix_eq (get_dictOf hactive) (find_dictOf hactive ownPrefix),
      ← ancestorIds, inheritedValue_walk hdb hnone hcategories hsnapshot hc]
  next hnot =>
    have hitem := List.any_eq_false.mp (Bool.eq_false_iff.mpr hnot) c hc
    rw [hown, inheritedValue_own hws hcws]
    rw [hown] at hitem
    cases hown : ownPrefix c with
    | none =>
      right
      simpa [hown] using hitem
    | some found => exact .inl rfl

end Requested

theorem inheritedColumns_eq (hrows : OnePerId rows) (hc : c ∈ rows) (selfId : Option Uuid)
    (setting : CategoryRow → Option ν) :
    inheritedColumns rows (some c) selfId setting =
      (inheritedValue rows setting c, ((nearest rows setting c).map Prod.snd).filter fun owner => some owner ≠ selfId) := by
  have hstart : columnsFrom rows setting (some c) [] = nearest rows setting c := by
    rw [columnsFrom, if_neg List.not_mem_nil, nearest, chain, findSome?_cons_or, settingOf_self hrows hc, ancestorIds,
      ← columnsFrom_eq get_parentMapOf, get_parentMapOf, settingOf_self hrows hc]
    cases setting c <;> rfl
  rw [inheritedColumns, hstart, inheritedValue]
  cases nearest rows setting c with
  | none => rfl
  | some found =>
    obtain ⟨value, owner⟩ := found
    by_cases howner : some owner = selfId
    · subst howner
      simp [Option.filter]
    · simp [howner, Option.filter]

/-- Every requested category has, for each setting, the value of the nearest category on
its chain that sets it: whatever else is requested, with or without a snapshot. -/
theorem inherited_settings {categories : List CategoryRow} {snapshot : Option (List CategoryRow)}
    (hids : (db.map (·.id)).Nodup) (hnone : NoArchivedAncestor (workspaceRows db workspaceId))
    (hcategories : ∀ c ∈ categories, c ∈ workspaceRows db workspaceId ∧ c.archivedAt = none)
    (hsnapshot : ∀ rows ∈ snapshot, Snapshot db workspaceId rows) (hc : c ∈ categories) (selfId : Option Uuid) :
    Dict.find c.id (rulesByCategory db workspaceId categories snapshot) =
      some ⟨inheritedValue (workspaceRows db workspaceId) (·.valueTemplate) c,
        inheritedValue (workspaceRows db workspaceId) (fun row => fieldList row.kicadFields) c⟩ ∧
    Dict.find c.id (refdesPrefixes db workspaceId categories snapshot) =
      some (inheritedValue (workspaceRows db workspaceId) ownPrefix c) ∧
    ∀ setting ∈ [(·.listColumns), (·.listSort)], inheritedColumns (workspaceRows db workspaceId) (some c) selfId setting =
      (inheritedValue (workspaceRows db workspaceId) setting c,
        ((nearest (workspaceRows db workspaceId) setting c).map Prod.snd).filter fun owner => some owner ≠ selfId) := by
  have hdb : OnePerId db := .of_nodup hids
  exact ⟨rulesByCategory_eq hdb hnone hcategories hsnapshot hc, refdesPrefixes_eq hdb hnone hcategories hsnapshot hc,
    fun setting _ => inheritedColumns_eq (onePerId_workspace hdb) (hcategories c hc).1 selfId setting⟩

def sampleRow (id : Uuid) (parentId : Option Uuid) (archivedAt : Option Timestamp) : CategoryRow where
  id := id
  name := uuidStr id
  sortOrder := 0
  parentId := parentId
  archivedAt := archivedAt
  workspaceId := 1
  refdesPrefix := none
  valueTemplate := none
  kicadFields := none
  listColumns := none
  listSort := none

/-- Capacitors, ceramic ones, and those of class 1 -/
def sampleTree : List CategoryRow :=
  [{ sampleRow 10 none none with valueTemplate := some "\x7bcapacitance\x7d", refdesPrefix := some "C" },
    { sampleRow 11 (some 10) none with kicadFields := some (.list ["voltage"]), refdesPrefix := some "" },
    sampleRow 12 (some 11) none, sampleRow 13 none (some 5)]

theorem sampleTree_active : NoArchivedAncestor (workspaceRows sampleTree 1) := by
  unfold NoArchivedAncestor
  decide +kernel

theorem sampleTree_snapshot : Snapshot sampleTree 1 (sampleTree.take 3) := by
  intro row _ hactive
  refine ⟨List.mem_of_mem_take, fun hmem => ?_⟩
  rw [← List.take_append_drop 3 sampleTree, List.mem_append] at hmem
  refine hmem.resolve_right fun harchived => ?_
  rw [List.mem_singleton.mp harchived] at hactive
  exact absurd hactive (by decide)

/-- Class 1 takes the template from the root, the fields from its parent, and its prefix from the root. -/
theorem inherited_settings_leaf :
    Dict.find 12 (rulesByCategory sampleTree 1 [sampleRow 12 (some 11) none] (some (sampleTree.take 3))) =
      some ⟨some "\x7bcapacitance\x7d", some ["voltage"]⟩ ∧
    Dict.find 12 (refdesPrefixes sampleTree 1 [sampleRow 12 (some 11) none] (some (sampleTree.take 3))) =
      some (some "C") := by
  have hsnapshot : ∀ rows ∈ some (sampleTree.take 3), Snapshot sampleTree 1 rows := fun rows hrows =>
    Option.some.inj hrows ▸ sampleTree_snapshot
  obtain ⟨hrules, hprefixes, -⟩ := @inherited_settings sampleTree 1 (sampleRow 12 (some 11) none)
    [sampleRow 12 (some 11) none] (some (sampleTree.take 3)) (by decide) sampleTree_active (by decide)
    hsnapshot (by decide) none
  exact ⟨hrules.trans (by decide +kernel), hprefixes.trans (by decide +kernel)⟩

end StockManager.CategorySettings
