import Mathlib
import StockManager.Library.ParentChain
import StockManager.Model.Categories

/-! # Walks over a parent map

The loops of `tree.py` in terms of the ancestors of an id: `climb m.get n y` is the `n`-th. -/

namespace StockManager.Categories

open ParentChain

variable {m : ParentMap} {x y p : Uuid} {n : ℕ}

theorem mem_childrenIn_iff (hkeys : (Dict.keys m).Nodup) :
    y ∈ childrenIn m x ↔ m.get y = some x := by
  rw [mem_childrenIn, Dict.mem_iff_find hkeys, ParentMap.get, Option.join_eq_some_iff]

theorem ancestorsFrom_congr (hacyclic : Acyclic m.get) {current : Option Uuid} {seen seen' : List Uuid}
    (hseen : ∀ p ∈ current, ∀ x ∈ seen, ∀ n, climb m.get n p ≠ some x)
    (hseen' : ∀ p ∈ current, ∀ x ∈ seen', ∀ n, climb m.get n p ≠ some x) :
    ancestorsFrom m current seen = ancestorsFrom m current seen' := by
  have hlater : ∀ {seen : List Uuid} {current : Uuid},
      (∀ p ∈ some current, ∀ x ∈ seen, ∀ n, climb m.get n p ≠ some x) →
      ∀ p ∈ m.get current, ∀ x ∈ current :: seen, ∀ n, climb m.get n p ≠ some x := by
    intro seen current h p hp x hx n hn
    have hclimb := climb_succ_eq.mpr ⟨p, hp, hn⟩
    rcases List.mem_cons.mp hx with rfl | hx
    · exact hacyclic x (transGen_iff_climb.mpr ⟨n, hclimb⟩)
    · exact h current rfl x hx _ hclimb
  induction current, seen using ancestorsFrom.induct m generalizing seen' with
  | case1 => rw [ancestorsFrom, ancestorsFrom]
  | case2 current seen hmem => exact absurd rfl (hseen current rfl current hmem 0)
  | case3 current seen hmem ih =>
    have hmem' : current ∉ seen' := fun h => hseen' current rfl current h 0 rfl
    rw [ancestorsFrom, ancestorsFrom, if_neg hmem, if_neg hmem', ih (hlater hseen) (hlater hseen')]

theorem ancestorIds_of_get (hacyclic : Acyclic m.get) (hp : m.get y = some p) :
    ancestorIds m y = p :: ancestorIds m p := by
  have hne : p ∉ [y] := fun h =>
    hacyclic y (.single (hp.trans (congrArg some (List.mem_singleton.mp h))))
  rw [ancestorIds, hp, ancestorsFrom, if_neg hne, ancestorIds]
  refine congrArg (p :: ·) (ancestorsFrom_congr hacyclic ?_ ?_)
  · intro q hq x hx n hn
    have hclimb := climb_succ_eq.mpr ⟨q, hq, hn⟩
    rcases List.mem_cons.mp hx with rfl | hx
    · exact hacyclic x (transGen_iff_climb.mpr ⟨n, hclimb⟩)
    · rw [List.mem_singleton.mp hx] at hclimb
      exact hacyclic y (transGen_iff_climb.mpr ⟨n + 1, climb_succ_eq.mpr ⟨p, hp, hclimb⟩⟩)
  · intro q hq x hx n hn
    rw [List.mem_singleton.mp hx] at hn
    exact hacyclic p (transGen_iff_climb.mpr ⟨n, climb_succ_eq.mpr ⟨q, hq, hn⟩⟩)

theorem ancestorIds_of_get_none (h : m.get y = none) : ancestorIds m y = [] := by
  rw [ancestorIds, h, ancestorsFrom]

theorem mem_ancestorIds (hacyclic : Acyclic m.get) :
    x ∈ ancestorIds m y ↔ ∃ n, climb m.get (n + 1) y = some x := by
  constructor
  · intro hx
    generalize hlist : ancestorIds m y = ancestors at hx
    induction ancestors generalizing y with
    | nil => exact absurd hx List.not_mem_nil
    | cons q ancestors ih =>
      cases hget : m.get y with
      | none =>
        rw [ancestorIds_of_get_none hget] at hlist
        exact absurd hlist (List.cons_ne_nil _ _).symm
      | some p =>
        rw [ancestorIds_of_get hacyclic hget, List.cons.injEq] at hlist
        rcases List.mem_cons.mp hx with rfl | hx
        · exact ⟨0, climb_succ_eq.mpr ⟨p, hget, congrArg some hlist.1⟩⟩
        · obtain ⟨n, hn⟩ := ih hlist.2 hx
          exact ⟨n + 1, climb_succ_eq.mpr ⟨p, hget, hn⟩⟩
  · rintro ⟨n, hn⟩
    induction n generalizing y with
    | zero =>
      obtain ⟨p, hp, hclimb⟩ := climb_succ_eq.mp hn
      rw [ancestorIds_of_get hacyclic hp, Option.some.inj hclimb]
      exact List.mem_cons_self
    | succ n ih =>
      obtain ⟨p, hp, hclimb⟩ := climb_succ_eq.mp hn
      rw [ancestorIds_of_get hacyclic hp]
      exact List.mem_cons_of_mem _ (ih hclimb)

theorem depthOf_of_climb (hacyclic : Acyclic m.get) (h : climb m.get n y = some x) :
    depthOf m y = depthOf m x + n := by
  induction n generalizing y with
  | zero => rw [Option.some.inj h, Nat.add_zero]
  | succ n ih =>
    obtain ⟨p, hp, hclimb⟩ := climb_succ_eq.mp h
    have hdepth := ih hclimb
    rw [depthOf] at hdepth ⊢
    rw [ancestorIds_of_get hacyclic hp, List.length_cons]
    omega

theorem descendantsFrom_sound {P : Uuid → Prop} (hstep : ∀ x, P x → ∀ y ∈ childrenIn m x, P y)
    {queue out : List Uuid} (hqueue : ∀ x ∈ queue, P x) (hout : ∀ x ∈ out, P x) :
    ∀ x ∈ descendantsFrom m queue out, P x := by
  induction queue, out using descendantsFrom.induct m with
  | case1 => rwa [descendantsFrom]
  | case2 node queue out ih =>
    rw [List.forall_mem_cons] at hqueue
    have hnew : ∀ x ∈ newChildren out (childrenIn m node), P x := fun x hx =>
      hstep node hqueue.1 x (((newChildren_spec _ _).2 x).mp hx).1
    rw [descendantsFrom]
    exact ih (List.forall_mem_append.mpr ⟨hqueue.2, hnew⟩) (List.forall_mem_append.mpr ⟨hout, hnew⟩)

theorem subset_descendantsFrom {queue out : List Uuid} : out ⊆ descendantsFrom m queue out := by
  induction queue, out using descendantsFrom.induct m with
  | case1 => rw [descendantsFrom]; exact List.Subset.refl _
  | case2 node queue out ih =>
    rw [descendantsFrom]
    exact List.Subset.trans (List.subset_append_left _ _) ih

theorem descendantsFrom_closed {queue out : List Uuid}
    (h : ∀ x ∈ out, x ∈ queue ∨ childrenIn m x ⊆ out) :
    ∀ x ∈ descendantsFrom m queue out, childrenIn m x ⊆ descendantsFrom m queue out := by
  induction queue, out using descendantsFrom.induct m with
  | case1 =>
    rw [descendantsFrom]
    exact fun x hx => (h x hx).resolve_left List.not_mem_nil
  | case2 node queue out ih =>
    rw [descendantsFrom]
    refine ih fun x hx => ?_
    rcases List.mem_append.mp hx with hx | hx
    · rcases h x hx with hqueue | hchildren
      · rcases List.mem_cons.mp hqueue with rfl | hqueue
        · refine .inr fun y hy => ?_
          by_cases hout : y ∈ out
          · exact List.mem_append.mpr (.inl hout)
          · exact List.mem_append.mpr (.inr (((newChildren_spec _ _).2 y).mpr ⟨hy, hout⟩))
        · exact .inl (List.mem_append.mpr (.inl hqueue))
      · exact .inr (List.Subset.trans hchildren (List.subset_append_left _ _))
    · exact .inl (List.mem_append.mpr (.inr hx))

theorem mem_descendantIds (hkeys : (Dict.keys m).Nodup) :
    y ∈ descendantIds m x ↔ ∃ n, climb m.get n y = some x := by
  constructor
  · refine fun h => descendantsFrom_sound (P := fun y => ∃ n, climb m.get n y = some x) ?_ ?_ ?_ y h
    · rintro z ⟨n, hn⟩ y hy
      exact ⟨n + 1, climb_succ_eq.mpr ⟨z, (mem_childrenIn_iff hkeys).mp hy, hn⟩⟩
    · exact fun z hz => ⟨0, congrArg some (List.mem_singleton.mp hz)⟩
    · exact fun z hz => ⟨0, congrArg some (List.mem_singleton.mp hz)⟩
  · rintro ⟨n, hn⟩
    induction n generalizing y with
    | zero =>
      rw [Option.some.inj hn]
      exact subset_descendantsFrom (List.mem_singleton.mpr rfl)
    | succ n ih =>
      obtain ⟨p, hp, hclimb⟩ := climb_succ_eq.mp hn
      refine descendantsFrom_closed ?_ p (ih hclimb) ((mem_childrenIn_iff hkeys).mpr hp)
      exact fun z hz => .inl hz

theorem exists_climb_of_le {k : ℕ} (h : climb m.get k y = some x) (hle : n ≤ k) :
    ∃ z, climb m.get n z = some x := by
  induction k generalizing y with
  | zero =>
    obtain rfl : n = 0 := by omega
    exact ⟨y, h⟩
  | succ k ih =>
    rcases Nat.eq_or_lt_of_le hle with rfl | hlt
    · exact ⟨y, h⟩
    · obtain ⟨p, _, hclimb⟩ := climb_succ_eq.mp h
      exact ih hclimb (by omega)

theorem mem_nextLevel_iff (hkeys : (Dict.keys m).Nodup) (hacyclic : Acyclic m.get)
    {level seen : List Uuid} (hlevel : ∀ y, y ∈ level ↔ climb m.get n y = some x)
    (hseen : ∀ y ∈ seen, ∃ k ≤ n, climb m.get k y = some x) :
    y ∈ nextLevel m level seen ↔ climb m.get (n + 1) y = some x := by
  rw [mem_nextLevel, climb_succ_eq]
  constructor
  · rintro ⟨⟨p, hp, hy⟩, -⟩
    exact ⟨p, (mem_childrenIn_iff hkeys).mp hy, (hlevel p).mp hp⟩
  · rintro ⟨p, hp, hclimb⟩
    refine ⟨⟨p, (hlevel p).mpr hclimb, (mem_childrenIn_iff hkeys).mpr hp⟩, fun hmem => ?_⟩
    obtain ⟨k, hk, hy⟩ := hseen y hmem
    have hsame := hacyclic.climb_unique hy (climb_succ_eq.mpr ⟨p, hp, hclimb⟩)
    omega

theorem levelsBelow_spec (hkeys : (Dict.keys m).Nodup) (hacyclic : Acyclic m.get)
    {level seen : List Uuid} (hlevel : ∀ y, y ∈ level ↔ climb m.get n y = some x)
    (hseen : ∀ y ∈ seen, ∃ k ≤ n, climb m.get k y = some x) (hne : level ≠ []) :
    (∃ y, climb m.get (n + levelsBelow m level seen) y = some x) ∧
      ∀ k y, climb m.get k y = some x → k ≤ n + levelsBelow m level seen := by
  induction level, seen using levelsBelow.induct m generalizing n with
  | case1 level seen hnone =>
    obtain ⟨y, hy⟩ := List.exists_mem_of_ne_nil _ hne
    rw [levelsBelow, if_pos hnone]
    refine ⟨⟨y, (hlevel y).mp hy⟩, fun k z hz => Nat.le_of_not_lt fun hlt => ?_⟩
    obtain ⟨z', hz'⟩ := exists_climb_of_le (n := n + 1) hz (by omega)
    exact List.ne_nil_of_mem ((mem_nextLevel_iff hkeys hacyclic hlevel hseen).mpr hz') hnone
  | case2 level seen hsome ih =>
    have hnext : ∀ y, y ∈ nextLevel m level seen ↔ climb m.get (n + 1) y = some x := fun y =>
      mem_nextLevel_iff hkeys hacyclic hlevel hseen
    have hlast := ih hnext (fun y hy => ?_) hsome
    · rw [levelsBelow, if_neg hsome, Nat.add_comm _ 1, ← Nat.add_assoc]
      exact hlast
    · rcases List.mem_append.mp hy with hy | hy
      · obtain ⟨k, hk, hclimb⟩ := hseen y hy
        exact ⟨k, by omega, hclimb⟩
      · exact ⟨n + 1, le_rfl, (hnext y).mp hy⟩

theorem subtreeHeight_spec (hkeys : (Dict.keys m).Nodup) (hacyclic : Acyclic m.get) :
    (∃ y, climb m.get (subtreeHeight m x) y = some x) ∧
      ∀ k y, climb m.get k y = some x → k ≤ subtreeHeight m x := by
  have hlevel : ∀ y, y ∈ [x] ↔ climb m.get 0 y = some x := fun y => by simp [climb]
  have hseen : ∀ y ∈ [x], ∃ k ≤ 0, climb m.get k y = some x := fun y hy =>
    ⟨0, le_rfl, congrArg some (List.mem_singleton.mp hy)⟩
  have hspec := levelsBelow_spec hkeys hacyclic hlevel hseen (List.cons_ne_nil _ _)
  simpa [subtreeHeight] using hspec

end StockManager.Categories

/-! ## What the walks up the category tree find -/

namespace StockManager.CategorySettings

open Categories (ParentMap loadParentMap ancestorIds ancestorsFrom)

variable {ν : Type} {db rows : List CategoryRow} {workspaceId : Uuid} {c : CategoryRow}

def parentMapOf (rows : List CategoryRow) : ParentMap := loadParentMap (rows.map CategoryRow.toPartCategory)

def settingOf (rows : List CategoryRow) (setting : CategoryRow → Option ν) (id : Uuid) : Option ν :=
  (rowById rows id).bind setting

/-- The categories of one workspace, archived ones included -/
def workspaceRows (db : List CategoryRow) (workspaceId : Uuid) : List CategoryRow :=
  db.filter (·.workspaceId = workspaceId)

/-- The rows a caller hands over hold the active categories of the workspace as they are. -/
def Snapshot (db : List CategoryRow) (workspaceId : Uuid) (rows : List CategoryRow) : Prop :=
  ∀ row, row.workspaceId = workspaceId → row.archivedAt = none → (row ∈ rows ↔ row ∈ db)

def OnePerId (rows : List CategoryRow) : Prop := ∀ r ∈ rows, ∀ r' ∈ rows, r.id = r'.id → r = r'

theorem OnePerId.of_nodup (h : (rows.map (·.id)).Nodup) : OnePerId rows :=
  fun _ hr _ hr' hid => List.inj_on_of_nodup_map h hr hr' hid

theorem OnePerId.mono {more : List CategoryRow} (h : OnePerId more) (hsub : ∀ r ∈ rows, r ∈ more) :
    OnePerId rows :=
  fun r hr r' hr' hid => h r (hsub r hr) r' (hsub r' hr') hid

theorem rowById_eq_some_iff (h : OnePerId rows) {id : Uuid} :
    rowById rows id = some c ↔ c ∈ rows ∧ c.id = id := by
  constructor
  · intro hfound
    exact ⟨List.mem_of_find?_eq_some hfound, (rowById_id hfound).1⟩
  · rintro ⟨hmem, rfl⟩
    cases hfound : rowById rows c.id with
    | none =>
      have hnone := List.find?_eq_none.mp hfound c hmem
      simp at hnone
    | some row =>
      rw [h row (List.mem_of_find?_eq_some hfound) c hmem (rowById_id hfound).1]

theorem find_map_rows (value : CategoryRow → ν) (id : Uuid) :
    Dict.find id (rows.map fun row => (row.id, value row)) = (rowById rows id).map value :=
  Dict.find_map_key (fun row : CategoryRow => row.id) value rows id

theorem find_dictOf (h : OnePerId rows) (value : CategoryRow → ν) (id : Uuid) :
    Dict.find id (dictOf value rows) = (rowById rows id).map value := by
  have hreverse : OnePerId rows.reverse := h.mono fun r hr => List.mem_reverse.mp hr
  have hfold : dictOf value rows =
      (rows.map fun row => (row.id, value row)).foldl (fun d item => Dict.put item.1 item.2 d) [] := by
    rw [List.foldl_map, dictOf]
  rw [hfold, Dict.find_foldl_put, ← List.map_reverse, find_map_rows, Dict.find, Option.or_none]
  refine congrArg (Option.map value) (Option.ext fun row => ?_)
  rw [rowById_eq_some_iff hreverse, rowById_eq_some_iff h, List.mem_reverse]

theorem get_parentMapOf (id : Uuid) : (parentMapOf rows).get id = settingOf rows (·.parentId) id := by
  rw [ParentMap.get, parentMapOf, loadParentMap, List.map_map]
  have hfind := @find_map_rows _ rows (·.parentId) id
  simp only [Function.comp_def]
  rw [hfind, settingOf]
  cases rowById rows id <;> rfl

theorem get_dictOf (h : OnePerId rows) (id : Uuid) :
    ParentMap.get (dictOf (·.parentId) rows) id = settingOf rows (·.parentId) id := by
  rw [ParentMap.get, find_dictOf h, settingOf]
  cases rowById rows id <;> rfl

theorem ancestorsFrom_agree {m m' : ParentMap} (current : Option Uuid) (seen : List Uuid)
    (h : ∀ id ∈ ancestorsFrom m current seen, m'.get id = m.get id) :
    ancestorsFrom m' current seen = ancestorsFrom m current seen := by
  induction current, seen using Categories.ancestorsFrom.induct m with
  | case1 seen => rw [ancestorsFrom, ancestorsFrom]
  | case2 current seen hmem => rw [ancestorsFrom, ancestorsFrom, if_pos hmem, if_pos hmem]
  | case3 current seen hmem ih =>
    rw [ancestorsFrom, if_neg hmem, List.forall_mem_cons] at h
    rw [ancestorsFrom, if_neg hmem, ancestorsFrom, if_neg hmem, h.1, ih h.2]

theorem ancestorIds_agree {m m' : ParentMap} {id : Uuid} (hid : m'.get id = m.get id)
    (h : ∀ above ∈ ancestorIds m id, m'.get above = m.get above) : ancestorIds m' id = ancestorIds m id := by
  rw [ancestorIds, ancestorIds, hid]
  exact ancestorsFrom_agree _ _ h

theorem findSome?_cons_or {α : Type} (f : α → Option ν) (a : α) (l : List α) :
    (a :: l).findSome? f = (f a).or (l.findSome? f) := by
  rw [List.findSome?_cons]
  cases f a <;> rfl

theorem findSome?_congr {α : Type} {f g : α → Option ν} {l : List α} (h : ∀ a ∈ l, f a = g a) :
    l.findSome? f = l.findSome? g := by
  induction l with
  | nil => rfl
  | cons a l ih =>
    rw [List.forall_mem_cons] at h
    rw [findSome?_cons_or, findSome?_cons_or, h.1, ih h.2]

section Fills

variable {m : ParentMap} (hget : ∀ id, m.get id = settingOf rows (·.parentId) id)

include hget

theorem ancestorsFrom_missing {id : Uuid} (hmissing : rowById rows id = none) (seen : List Uuid) :
    ancestorsFrom m (m.get id) seen = [] := by
  rw [hget, settingOf, hmissing, Option.bind_none, ancestorsFrom]

theorem inheritedFrom_eq {ancestors : List (Uuid × CategoryRules)}
    (hfind : ∀ id, Dict.find id ancestors = (rowById rows id).map ownRules) (rules : CategoryRules)
    (current : Option Uuid) (seen : List Uuid) :
    inheritedFrom ancestors rules (ancestorsFrom m current seen) =
      ⟨rules.valueTemplate.or ((ancestorsFrom m current seen).findSome? (settingOf rows (·.valueTemplate))),
        rules.kicadFields.or ((ancestorsFrom m current seen).findSome?
          (settingOf rows fun row => fieldList row.kicadFields))⟩ := by
  induction current, seen using Categories.ancestorsFrom.induct m generalizing rules with
  | case1 seen =>
    rw [ancestorsFrom, inheritedFrom]
    simp
  | case2 current seen hmem =>
    rw [ancestorsFrom, if_pos hmem, inheritedFrom]
    simp
  | case3 current seen hmem ih =>
    rw [ancestorsFrom, if_neg hmem, inheritedFrom, hfind]
    cases hrow : rowById rows current with
    | none =>
      have hsetting : ∀ {ν : Type} (setting : CategoryRow → Option ν), settingOf rows setting current = none := by
        intro ν setting
        rw [settingOf, hrow, Option.bind_none]
      rw [ancestorsFrom_missing hget hrow]
      simp [hsetting]
    | some row =>
      have hsetting : ∀ {ν : Type} (setting : CategoryRow → Option ν),
          settingOf rows setting current = setting row := by
        intro ν setting
        rw [settingOf, hrow, Option.bind_some]
      simp only [Option.map_some, findSome?_cons_or, hsetting, ← Option.or_assoc]
      split
      next hcomplete =>
        obtain ⟨htemplate, hfields⟩ : (rules.valueTemplate.or row.valueTemplate).isSome = true ∧
            (rules.kicadFields.or (fieldList row.kicadFields)).isSome = true :=
          Bool.and_eq_true_iff.mp hcomplete
        rw [Option.or_of_isSome htemplate, Option.or_of_isSome hfields]
        rfl
      next => exact ih _

theorem inheritedPrefix_eq {ancestors : List (Uuid × Option String)}
    (hfind : ∀ id, Dict.find id ancestors = (rowById rows id).map ownPrefix) (current : Option Uuid)
    (seen : List Uuid) :
    inheritedPrefix ancestors (ancestorsFrom m current seen) =
      (ancestorsFrom m current seen).findSome? (settingOf rows ownPrefix) := by
  induction current, seen using Categories.ancestorsFrom.induct m with
  | case1 seen =>
    rw [ancestorsFrom]
    rfl
  | case2 current seen hmem =>
    rw [ancestorsFrom, if_pos hmem]
    rfl
  | case3 current seen hmem ih =>
    rw [ancestorsFrom, if_neg hmem, inheritedPrefix, hfind, findSome?_cons_or]
    cases hrow : rowById rows current with
    | none =>
      rw [ancestorsFrom_missing hget hrow, settingOf, hrow]
      rfl
    | some row =>
      rw [settingOf, hrow, Option.map_some, Option.bind_some]
      cases hown : ownPrefix row with
      | none => exact ih
      | some found => rfl

end Fills

theorem columnsFrom_eq {m : ParentMap} (hget : ∀ id, m.get id = settingOf rows (·.parentId) id)
    (setting : CategoryRow → Option ν) (current : Option Uuid) (seen : List Uuid) :
    columnsFrom rows setting (current.bind (rowById rows)) seen =
      (ancestorsFrom m current seen).findSome? fun id =>
        (settingOf rows setting id).map fun value => (value, id) := by
  induction current, seen using Categories.ancestorsFrom.induct m with
  | case1 seen => rw [Option.bind_none, columnsFrom, ancestorsFrom, List.findSome?_nil]
  | case2 current seen hmem =>
    rw [ancestorsFrom, if_pos hmem, List.findSome?_nil, Option.bind_some]
    cases hrow : rowById rows current with
    | none => rw [columnsFrom]
    | some row =>
      rw [columnsFrom, (rowById_id hrow).1, if_pos hmem]
  | case3 current seen hmem ih =>
    rw [ancestorsFrom, if_neg hmem, findSome?_cons_or, Option.bind_some]
    cases hrow : rowById rows current with
    | none =>
      rw [ancestorsFrom_missing hget hrow, columnsFrom, settingOf, hrow]
      rfl
    | some row =>
      have hparent : m.get current = row.parentId := by
        rw [hget, settingOf, hrow, Option.bind_some]
      rw [hparent] at ih
      rw [columnsFrom, (rowById_id hrow).1, if_neg hmem, settingOf, hrow, Option.bind_some, hparent, ← ih]
      cases setting row <;> rfl

theorem mem_workspaceRows {row : CategoryRow} :
    row ∈ workspaceRows db workspaceId ↔ row ∈ db ∧ row.workspaceId = workspaceId := by
  simp [workspaceRows]

theorem mem_activeRows {snapshot : Option (List CategoryRow)}
    (h : ∀ rows ∈ snapshot, Snapshot db workspaceId rows) (row : CategoryRow) :
    row ∈ activeRows db workspaceId snapshot ↔
      row ∈ workspaceRows db workspaceId ∧ row.archivedAt = none := by
  rw [activeRows, List.mem_filter, decide_eq_true_eq, mem_workspaceRows, and_assoc]
  cases snapshot with
  | none => exact Iff.rfl
  | some rows =>
    constructor
    · rintro ⟨hmem, hws, hactive⟩
      exact ⟨(h rows rfl row hws hactive).mp hmem, hws, hactive⟩
    · rintro ⟨hmem, hws, hactive⟩
      exact ⟨(h rows rfl row hws hactive).mpr hmem, hws, hactive⟩

theorem onePerId_active {active : List CategoryRow} (hrows : OnePerId rows)
    (hactive : ∀ row, row ∈ active ↔ row ∈ rows ∧ row.archivedAt = none) : OnePerId active :=
  hrows.mono fun r hr => ((hactive r).mp hr).1

theorem onePerId_workspace (hdb : OnePerId db) : OnePerId (workspaceRows db workspaceId) :=
  hdb.mono fun _ hr => (mem_workspaceRows.mp hr).1

theorem settingOf_self (hrows : OnePerId rows) (hc : c ∈ rows) (setting : CategoryRow → Option ν) :
    settingOf rows setting c.id = setting c := by
  rw [settingOf, (rowById_eq_some_iff hrows).mpr ⟨hc, rfl⟩, Option.bind_some]

section Requested

variable {categories : List CategoryRow} {snapshot : Option (List CategoryRow)}

variable (hdb : OnePerId db)
  (hcategories : ∀ c ∈ categories, c ∈ workspaceRows db workspaceId ∧ c.archivedAt = none) (hc : c ∈ categories)

include hdb hcategories

theorem onePerId_categories : OnePerId categories :=
  hdb.mono fun r hr => (mem_workspaceRows.mp (hcategories r hr).1).1

include hc

theorem find_categories (value : CategoryRow → ν) : Dict.find c.id (dictOf value categories) = some (value c) := by
  rw [find_dictOf (onePerId_categories hdb hcategories),
    (rowById_eq_some_iff (onePerId_categories hdb hcategories)).mpr ⟨hc, rfl⟩]
  rfl

variable (hsnapshot : ∀ rows ∈ snapshot, Snapshot db workspaceId rows)

include hsnapshot

/-- What one category gets does not depend on the others that are asked for: without a
parent the walk finds nothing. -/
theorem find_rulesByCategory :
    Dict.find c.id (rulesByCategory db workspaceId categories snapshot) =
      some (inherited c.id (ownRules c) (dictOf ownRules (activeRows db workspaceId snapshot))
        (dictOf (·.parentId) (activeRows db workspaceId snapshot))) := by
  have hfound : Dict.find c.id (dictOf (fun category => category) categories) = some c :=
    find_categories hdb hcategories hc fun category => category
  have hown : Dict.find c.id ((dictOf (fun category => category) categories).map fun item =>
      (item.1, ownRules item.2)) = some (ownRules c) := by
    rw [Dict.find_map_values fun _ => ownRules, hfound]
    rfl
  rw [rulesByCategory]
  split
  next => rw [Dict.find_map_values fun id rules => inherited id rules _ _, hown, Option.map_some]
  next hnot =>
    rw [hown, inherited]
    split
    next => rfl
    next hcomplete =>
      have hitem := List.any_eq_false.mp (Bool.eq_false_iff.mpr hnot) _ (Dict.mem_of_find hfound)
      have hparent : c.parentId = none := by simpa [hcomplete] using hitem
      have hactive := onePerId_active (onePerId_workspace hdb) (mem_activeRows hsnapshot)
      have hmem := (mem_activeRows hsnapshot c).mpr (hcategories c hc)
      rw [ancestorIds, get_dictOf hactive, settingOf_self hactive hmem, hparent, ancestorsFrom, inheritedFrom]

end Requested

end StockManager.CategorySettings
