import StockManager.Effects.SeedRuns

/-! # A dry run beside a run that applies

The two give different ids to the rows they create, and only one fills the rows it finds. -/

namespace StockManager.CategorySeed

open Categories (ParentMap loadParentMap ancestorsFrom ancestorIds)

theorem exists_perm_extending {ι α : Type} [DecidableEq α] {l : List ι} {a b : ι → α} {S : α → Prop}
    (ha : (l.map a).Nodup) (hb : (l.map b).Nodup) (haS : ∀ i ∈ l, ¬S (a i)) (hbS : ∀ i ∈ l, ¬S (b i)) :
    ∃ ρ : Equiv.Perm α, (∀ x, S x → ρ x = x) ∧ ∀ i ∈ l, ρ (a i) = b i := by
  induction l with
  | nil => exact ⟨1, fun _ _ => rfl, fun i hi => absurd hi List.not_mem_nil⟩
  | cons i l ih =>
    rw [List.map_cons, List.nodup_cons] at ha hb
    rw [List.forall_mem_cons] at haS hbS
    obtain ⟨ρ, hfix, hmap⟩ := ih ha.2 hb.2 haS.2 hbS.2
    refine ⟨Equiv.swap (ρ (a i)) (b i) * ρ, fun x hx => ?_, fun j hj => ?_⟩
    · have hold : ρ x ≠ ρ (a i) := fun heq => haS.1 (ρ.injective heq ▸ hx)
      have hother : ρ x ≠ b i := fun heq => hbS.1 (heq ▸ (hfix x hx).symm ▸ hx)
      rw [Equiv.Perm.mul_apply, Equiv.swap_apply_of_ne_of_ne hold hother, hfix x hx]
    · rcases List.mem_cons.mp hj with rfl | hj
      · rw [Equiv.Perm.mul_apply, Equiv.swap_apply_left]
      · have hnew : ρ (a j) ≠ ρ (a i) := fun heq =>
          ha.1 (ρ.injective heq ▸ List.mem_map_of_mem hj)
        have hother : ρ (a j) ≠ b i := fun heq => hb.1 (heq ▸ (hmap j hj).symm ▸ List.mem_map_of_mem hj)
        rw [Equiv.Perm.mul_apply, Equiv.swap_apply_of_ne_of_ne hnew hother, hmap j hj]

variable {lower : String → String} {ρ : Uuid → Uuid} {names : List String} {rows rows' : List CategoryRow}
  {row row' : CategoryRow} {seed : SeedCategory} {parentId : Option Uuid}

/-- A row of the run that applies and the same row of the dry run -/
structure SimRow (lower : String → String) (ρ : Uuid → Uuid) (names : List String) (row row' : CategoryRow) : Prop where
  id : row'.id = ρ row.id
  parentId : row'.parentId = row.parentId.map ρ
  name : row'.name = row.name
  archivedAt : row'.archivedAt = row.archivedAt
  slug : row'.librarySlug = row.librarySlug
  values : lower row.name ∉ names → row'.values = row.values

theorem getLast?_sim {R : CategoryRow → CategoryRow → Prop} (h : List.Forall₂ R rows rows') :
    (rows.getLast? = none ∧ rows'.getLast? = none) ∨
      ∃ row row', rows.getLast? = some row ∧ rows'.getLast? = some row' ∧ R row row' := by
  have hreverse := List.rel_reverse h
  rw [← List.head?_reverse, ← List.head?_reverse]
  generalize rows.reverse = a at hreverse ⊢
  generalize rows'.reverse = b at hreverse ⊢
  cases hreverse with
  | nil => exact .inl ⟨rfl, rfl⟩
  | cons hrow _ => exact .inr ⟨_, _, rfl, rfl, hrow⟩

theorem filter_sim {R : CategoryRow → CategoryRow → Prop} {p q : CategoryRow → Prop} [DecidablePred p]
    [DecidablePred q] (h : List.Forall₂ R rows rows') (hpq : ∀ row row', R row row' → (p row ↔ q row')) :
    List.Forall₂ R (rows.filter fun row => p row) (rows'.filter fun row => q row) := by
  refine List.rel_filter (fun row row' hrow => ?_) h
  show (decide (p row) = true) ↔ (decide (q row') = true)
  rw [decide_eq_true_eq, decide_eq_true_eq]
  exact hpq row row' hrow

theorem inScope_sim (hρ : Function.Injective ρ) (hrow : SimRow lower ρ names row row') (seed : SeedCategory) (parentId : Option Uuid) :
    InScope lower seed parentId row ↔ InScope lower seed (parentId.map ρ) row' := by
  rw [InScope, InScope, hrow.name, hrow.parentId, (Option.map_injective hρ).eq_iff]

section Renamed

variable (hρ : Function.Injective ρ) (h : List.Forall₂ (SimRow lower ρ names) rows rows')

include hρ h

theorem find_parentsIn_sim (id : Uuid) :
    Dict.find (ρ id) (parentsIn rows') = (Dict.find id (parentsIn rows)).map (Option.map ρ) := by
  induction h with
  | nil => rfl
  | @cons row row' rows rows' hrow hrest ih =>
    have hcons : ∀ (r : CategoryRow) (l : List CategoryRow), parentsIn (r :: l) = (r.id, r.parentId) :: parentsIn l :=
      fun _ _ => rfl
    rw [hcons, hcons, Dict.find, Dict.find, hrow.id, hrow.parentId]
    by_cases hid : row.id = id
    · rw [if_pos hid, if_pos (congrArg ρ hid), Option.map_some]
    · rw [if_neg hid, if_neg fun heq => hid (hρ heq), ih]

theorem get_parentsIn_sim (id : Uuid) : (parentsIn rows').get (ρ id) = ((parentsIn rows).get id).map ρ := by
  rw [ParentMap.get, ParentMap.get, find_parentsIn_sim hρ h]
  rcases Dict.find id (parentsIn rows) with _ | _ | _ <;> rfl

theorem ancestorsFrom_sim (current : Option Uuid) (seen : List Uuid) :
    ancestorsFrom (parentsIn rows') (current.map ρ) (seen.map ρ) =
      (ancestorsFrom (parentsIn rows) current seen).map ρ := by
  induction current, seen using Categories.ancestorsFrom.induct (parentsIn rows) with
  | case1 seen => rw [Option.map_none, ancestorsFrom, ancestorsFrom, List.map_nil]
  | case2 current seen hmem =>
    rw [Option.map_some, ancestorsFrom, if_pos (List.mem_map_of_mem hmem), ancestorsFrom, if_pos hmem, List.map_nil]
  | case3 current seen hmem ih =>
    have hnot : ρ current ∉ seen.map ρ := fun hin => by
      obtain ⟨other, hother, heq⟩ := List.mem_map.mp hin
      exact hmem (hρ heq ▸ hother)
    rw [Option.map_some, ancestorsFrom, if_neg hnot, ancestorsFrom, if_neg hmem, get_parentsIn_sim hρ h,
      ← List.map_cons, ih, List.map_cons]

theorem depthIn_sim (id : Uuid) : depthIn rows' (ρ id) = depthIn rows id := by
  have hwalk : ancestorIds (parentsIn rows') (ρ id) = (ancestorIds (parentsIn rows) id).map ρ := by
    rw [ancestorIds, ancestorIds, get_parentsIn_sim hρ h, ← ancestorsFrom_sim hρ h]
    rfl
  show 1 + (ancestorIds (parentsIn rows') (ρ id)).length = 1 + (ancestorIds (parentsIn rows) id).length
  rw [hwalk, List.length_map]

/-- The same verdict on both sides -/
inductive SimVerdict (lower : String → String) (ρ : Uuid → Uuid) (names : List String) : Verdict → Verdict → Prop
  | skip (detail : String) : SimVerdict lower ρ names (.skip detail) (.skip detail)
  | found {row row' : CategoryRow} : SimRow lower ρ names row row' → row'.values = row.values →
      SimVerdict lower ρ names (.found row) (.found row')
  | create {row row' : CategoryRow} : SimRow lower ρ names row row' → SimVerdict lower ρ names (.create row) (.create row')

theorem planUnder_sim (hname : lower seed.name ∉ names) (id : Uuid) (parentId : Option Uuid) :
    SimVerdict lower ρ names (planUnder lower id rows seed parentId)
      (planUnder lower (ρ id) rows' seed (parentId.map ρ)) := by
  have hactive : ∀ row row', SimRow lower ρ names row row' → (row.IsActive ↔ row'.IsActive) := by
    intro row row' hrow
    rw [CategoryRow.IsActive, CategoryRow.IsActive, hrow.archivedAt]
  have hanswers : List.Forall₂ (SimRow lower ρ names) (answers lower rows seed parentId)
      (answers lower rows' seed (parentId.map ρ)) :=
    filter_sim h fun row row' hrow => and_congr (hactive row row' hrow) (inScope_sim hρ hrow seed parentId)
  have harchived := getLast?_sim (filter_sim h fun row row' hrow =>
    and_congr (not_congr (hactive row row' hrow)) (inScope_sim hρ hrow seed parentId))
  have hbyName := getLast?_sim (filter_sim h fun row row' hrow => and_congr (hactive row row' hrow)
    (show lower row.name = lower seed.name ↔ lower row'.name = lower seed.name by rw [hrow.name]))
  have hbySlug := getLast?_sim (filter_sim h fun row row' hrow => and_congr (hactive row row' hrow)
    (show row.librarySlug = seed.librarySlug ↔ row'.librarySlug = seed.librarySlug by rw [hrow.slug]))
  have hdeep : ((parentId.map ρ).any fun parent =>
      maxDepth ≤ Categories.depthOf (loadParentMap (rows'.map (·.toPartCategory))) parent) =
      parentId.any fun parent =>
        maxDepth ≤ Categories.depthOf (loadParentMap (rows.map (·.toPartCategory))) parent := by
    cases parentId with
    | none => rfl
    | some parent =>
      show decide (maxDepth ≤ depthIn rows' (ρ parent)) = decide (maxDepth ≤ depthIn rows parent)
      rw [depthIn_sim hρ h]
  unfold planUnder isAmbiguous matchRow archivedMatch byName bySlug
  rw [← hanswers.length_eq, hdeep]
  split
  next => exact .skip _
  next =>
    rcases getLast?_sim hanswers with ⟨hnone, hnone'⟩ | ⟨row, row', hrow, hrow', hsim⟩
    · rw [hnone, hnone']
      dsimp only
      have hsame : ((rows.filter fun row => ¬row.IsActive ∧ InScope lower seed parentId row).getLast?).isSome =
          ((rows'.filter fun row => ¬row.IsActive ∧ InScope lower seed (parentId.map ρ) row).getLast?).isSome := by
        rcases harchived with ⟨hnone, hnone'⟩ | ⟨row, row', hrow, hrow', -⟩
        · rw [hnone, hnone']
        · rw [hrow, hrow']
          rfl
      rw [hsame]
      split
      next => exact .skip _
      next =>
        rcases hbyName with ⟨hnone, hnone'⟩ | ⟨row, row', hrow, hrow', hsim⟩
        · rw [hnone, hnone']
          dsimp only
          rcases hbySlug with ⟨hnone, hnone'⟩ | ⟨row, row', hrow, hrow', hsim⟩
          · rw [hnone, hnone']
            dsimp only
            split
            next => exact .skip _
            next => exact .create ⟨rfl, rfl, rfl, rfl, rfl, fun _ => rfl⟩
          · rw [hrow, hrow']
            dsimp only
            rw [hsim.name]
            exact .skip _
        · rw [hrow, hrow']
          dsimp only
          rw [hsim.slug]
          exact .skip _
    · rw [hrow, hrow']
      have hmem := (mem_answers.mp (List.mem_of_getLast? hrow)).2.2.1
      exact .found hsim (hsim.values (hmem ▸ hname))

end Renamed

section Runs

variable {newId newId' : String → Uuid} {seeds : List SeedCategory} {state state' : PlanState}

/-- What the report says of a seed row, less the id -/
def reported (outcome : SeedOutcome) : String × Action × String := (outcome.path, outcome.action, outcome.detail)

structure SimState (lower : String → String) (ρ : Uuid → Uuid) (names : List String) (state state' : PlanState) :
    Prop where
  rows : List.Forall₂ (SimRow lower ρ names) state.rows state'.rows
  resolved : state'.resolved = state.resolved.map fun item => (item.1, ρ item.2)
  outcomes : state'.outcomes.map reported = state.outcomes.map reported

theorem SimRow.mono {name : String} (hrow : SimRow lower ρ names row row') : SimRow lower ρ (name :: names) row row' :=
  ⟨hrow.id, hrow.parentId, hrow.name, hrow.archivedAt, hrow.slug,
    fun hnot => hrow.values fun hmem => hnot (List.mem_cons_of_mem _ hmem)⟩

theorem mem_of_found {id : Uuid} {existing : CategoryRow}
    (h : planUnder lower id rows seed parentId = .found existing) :
    existing ∈ rows ∧ lower existing.name = lower seed.name := by
  rcases planUnder_cases lower rows seed parentId id with ⟨detail, hplan, -⟩ | ⟨found, hplan, hanswers⟩ | ⟨hplan, -⟩
  · exact absurd (hplan.symm.trans h) (by simp)
  · obtain rfl := Verdict.found.inj (hplan.symm.trans h)
    exact ⟨(mem_of_answers hanswers).1, (mem_of_answers hanswers).2.2.1⟩
  · exact absurd (hplan.symm.trans h) (by simp)

theorem rowsFound_sim {existing : CategoryRow} (hrows : List.Forall₂ (SimRow lower ρ names) rows rows')
    (hfilled : ∀ row ∈ rows, row.id = existing.id → lower row.name = lower seed.name) :
    List.Forall₂ (SimRow lower ρ (lower seed.name :: names))
      (rows.map fun row => if row.id = existing.id then fill seed (fillableFields existing seed) row else row)
      rows' := by
  induction hrows with
  | nil => exact .nil
  | @cons row row' rows rows' hrow _ ih =>
    rw [List.forall_mem_cons] at hfilled
    refine .cons ?_ (ih hfilled.2)
    dsimp only
    split
    next hid =>
      refine ⟨hrow.id, hrow.parentId, hrow.name, hrow.archivedAt, hrow.slug, fun hnot => absurd ?_ hnot⟩
      exact List.mem_cons.mpr (.inl (hfilled.1 hid))
    next => exact hrow.mono

theorem planStep_sim (hρ : Function.Injective ρ) (hready : Ready newId (seed :: seeds) state)
    (hsim : SimState lower ρ names state state') (hname : lower seed.name ∉ names)
    (hid : ρ (newId seed.name) = newId' seed.name) :
    SimState lower ρ (lower seed.name :: names) (planStep lower true newId state seed)
      (planStep lower false newId' state' seed) := by
  have hkept : List.Forall₂ (SimRow lower ρ (lower seed.name :: names)) state.rows state'.rows :=
    hsim.rows.imp fun _ _ hrow => hrow.mono
  have hreported : ∀ outcome outcome' : SeedOutcome, reported outcome' = reported outcome →
      (state'.outcomes ++ [outcome']).map reported = (state.outcomes ++ [outcome]).map reported := by
    intro outcome outcome' heq
    rw [List.map_append, List.map_append, hsim.outcomes, List.map_singleton, List.map_singleton, heq]
  have hparent : parentOf state'.resolved seed = (parentOf state.resolved seed).map (Option.map ρ) := by
    rw [parentOf, parentOf]
    cases seed.parent with
    | none => rfl
    | some parent =>
      dsimp only
      rw [hsim.resolved, Dict.find_map_values fun _ => ρ, Option.map_map, Option.map_map]
      rfl
  cases hcase : parentOf state.resolved seed with
  | none =>
    have hone : planOne lower (newId seed.name) state.rows state.resolved seed = .skip reasonParentMissing := by
      rw [planOne, hcase]
    have hone' : planOne lower (newId' seed.name) state'.rows state'.resolved seed = .skip reasonParentMissing := by
      rw [planOne, hparent, hcase]
      rfl
    rw [planStep_skip hone, planStep_skip hone']
    exact ⟨hkept, hsim.resolved, hreported _ _ rfl⟩
  | some parentId =>
    have hone : planOne lower (newId seed.name) state.rows state.resolved seed =
        planUnder lower (newId seed.name) state.rows seed parentId := by
      rw [planOne, hcase]
    have hone' : planOne lower (newId' seed.name) state'.rows state'.resolved seed =
        planUnder lower (ρ (newId seed.name)) state'.rows seed (parentId.map ρ) := by
      rw [planOne, hparent, hcase, hid]
      rfl
    have hverdict := planUnder_sim hρ hsim.rows hname (newId seed.name) parentId
    rw [← hone'] at hverdict
    generalize hplan : planUnder lower (newId seed.name) state.rows seed parentId = verdict at hone hverdict
    generalize hplan' : planOne lower (newId' seed.name) state'.rows state'.resolved seed = verdict' at hverdict
    cases hverdict with
    | skip detail =>
      rw [planStep_skip hone, planStep_skip hplan']
      exact ⟨hkept, hsim.resolved, hreported _ _ rfl⟩
    | @found row row' hrow hvalues =>
      rw [planStep_found hone, planStep_found hplan']
      obtain ⟨hmem, hlower⟩ := mem_of_found hplan
      have hfields : fillableFields row' seed = fillableFields row seed := by
        rw [fillableFields, fillableFields, hvalues]
      refine ⟨rowsFound_sim hsim.rows fun r hr heq => ?_, ?_, hreported _ _ ?_⟩
      · rw [List.inj_on_of_nodup_map hready.ids hr hmem heq]
        exact hlower
      · rw [hsim.resolved, hrow.id]
        exact Dict.put_map_values _ _ _ _
      · rw [reported, reported, outcomeOf, outcomeOf, hfields]
    | @create row row' hrow =>
      rw [planStep_create hone, planStep_create hplan']
      refine ⟨List.rel_append hkept (.cons hrow.mono .nil), ?_, hreported _ _ rfl⟩
      rw [hsim.resolved, hrow.id]
      exact Dict.put_map_values _ _ _ _

/-- The dry run reports what the run that applies reports. -/
theorem run_sim (hρ : Function.Injective ρ) (hready : Ready newId seeds state)
    (hnames : (seeds.map fun seed => lower seed.name).Nodup)
    (hfree : ∀ seed ∈ seeds, lower seed.name ∉ names)
    (hids : ∀ seed ∈ seeds, ρ (newId seed.name) = newId' seed.name) (hsim : SimState lower ρ names state state') :
    (seeds.foldl (planStep lower false newId') state').outcomes.map reported =
      (seeds.foldl (planStep lower true newId) state).outcomes.map reported := by
  induction seeds generalizing state state' names with
  | nil => exact hsim.outcomes
  | cons seed seeds ih =>
    rw [List.map_cons, List.nodup_cons] at hnames
    rw [List.forall_mem_cons] at hfree hids
    refine ih (ready_planStep hready) hnames.2 (fun s hs hmem => ?_) hids.2 (planStep_sim hρ hready hsim hfree.1 hids.1)
    rcases List.mem_cons.mp hmem with heq | hin
    · exact hnames.1 (List.mem_map.mpr ⟨s, hs, heq⟩)
    · exact hfree.2 s hs hin

end Runs

end StockManager.CategorySeed
