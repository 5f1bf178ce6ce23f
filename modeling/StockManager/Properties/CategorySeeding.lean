import StockManager.Effects.SeedDryRuns

/-! # The category seed is idempotent, additive and honest -/

namespace StockManager.CategorySeed

open Categories (ParentMap loadParentMap depthOf ancestorsFrom)

variable {lower : String → String} {rows rows' : List CategoryRow} {row existing : CategoryRow}
  {seed : SeedCategory} {seeds : List SeedCategory} {parentId : Option Uuid} {newId newId' : String → Uuid}

section SecondRun

variable {state state' : PlanState}

/-- No value of the seed row is one that counts as unset. -/
def SetValues (seed : SeedCategory) : Prop :=
  ∀ field, seed.values field = .null ∨ isUnset field (seed.values field) = false

theorem fillableFields_fill (hset : SetValues seed) (existing : CategoryRow) :
    fillableFields (fill seed (fillableFields existing seed) existing) seed = [] := by
  refine List.filter_eq_nil_iff.mpr fun field hfield hfill => ?_
  obtain ⟨hvalue, hunset⟩ := of_decide_eq_true hfill
  have hfilled : (fill seed (fillableFields existing seed) existing).values field =
      if field ∈ fillableFields existing seed then seed.values field else existing.values field := rfl
  rw [hfilled] at hunset
  split at hunset
  next =>
    rw [(hset field).resolve_left hvalue] at hunset
    exact Bool.false_ne_true hunset
  next hnot => exact hnot (List.mem_filter.mpr ⟨hfield, decide_eq_true ⟨hvalue, hunset⟩⟩)

theorem fillableFields_newRow (hset : SetValues seed) (id : Uuid) (parentId : Option Uuid) :
    fillableFields (newRow seed id parentId) seed = [] := by
  refine List.filter_eq_nil_iff.mpr fun field _ hfill => ?_
  obtain ⟨hvalue, hunset⟩ := of_decide_eq_true hfill
  have hown : isUnset field (seed.values field) = true := hunset
  rw [(hset field).resolve_left hvalue] at hown
  exact Bool.false_ne_true hown

theorem rowsFound_nil (apply : Bool) (h : fillableFields existing seed = []) (rows : List CategoryRow) :
    rowsFound apply rows existing seed = rows := by
  unfold rowsFound
  split
  next =>
    conv => rhs; rw [← List.map_id rows]
    refine List.map_congr_left fun row _ => ?_
    rw [h]
    split <;> rfl
  next => rfl

theorem answers_rowsFound (h : answers lower rows seed parentId = [existing]) :
    answers lower (rowsFound true rows existing seed) seed parentId =
      [fill seed (fillableFields existing seed) existing] := by
  rw [rowsFound, if_pos rfl, answers, List.filter_map]
  have hpred : rows.filter ((fun row : CategoryRow => decide (row.IsActive ∧ InScope lower seed parentId row)) ∘
      fun row => if row.id = existing.id then fill seed (fillableFields existing seed) row else row) =
      answers lower rows seed parentId := by
    refine List.filter_congr fun row _ => ?_
    rw [Function.comp_apply]
    split <;> rfl
  rw [hpred, h, List.map_singleton, if_pos rfl]

theorem answers_append_newRow (h : answers lower rows seed parentId = []) (id : Uuid) :
    answers lower (rows ++ [newRow seed id parentId]) seed parentId = [newRow seed id parentId] := by
  have hnew : answers lower [newRow seed id parentId] seed parentId = [newRow seed id parentId] :=
    List.filter_eq_self.mpr fun row hrow => by
      rw [List.mem_singleton.mp hrow]
      exact decide_eq_true ⟨rfl, rfl, .inr rfl⟩
  rw [answers, List.filter_append, ← answers, ← answers, h, hnew, List.nil_append]

theorem depthIn_perm (hperm : rows.Perm rows') (hids : (rows'.map (·.id)).Nodup) (id : Uuid) :
    depthIn rows id = depthIn rows' id := by
  have hkeys : (Dict.keys (parentsIn rows')).Nodup := by
    have hids' : Dict.keys (parentsIn rows') = rows'.map (·.id) := by
      rw [Dict.keys, parentsIn, loadParentMap, List.map_map, List.map_map]
      rfl
    rw [hids']
    exact hids
  have hget : ∀ x, (parentsIn rows).get x = (parentsIn rows').get x := by
    intro x
    have hmaps : (parentsIn rows).Perm (parentsIn rows') := (hperm.map _).map _
    rw [ParentMap.get, ParentMap.get, Dict.find_perm hmaps hkeys]
  have hwalk : Categories.ancestorIds (parentsIn rows) id = Categories.ancestorIds (parentsIn rows') id :=
    CategorySettings.ancestorIds_agree (hget id) fun above _ => hget above
  show 1 + (Categories.ancestorIds (parentsIn rows) id).length =
    1 + (Categories.ancestorIds (parentsIn rows') id).length
  rw [hwalk]

theorem blocked_perm (hperm : rows.Perm rows') (hids : (rows'.map (·.id)).Nodup) :
    Blocked lower rows seed parentId ↔ Blocked lower rows' seed parentId := by
  have hdeep : TooDeep rows parentId ↔ TooDeep rows' parentId := by
    refine exists_congr fun parent => and_congr_right fun _ => ?_
    show maxDepth ≤ depthIn rows parent ↔ maxDepth ≤ depthIn rows' parent
    rw [depthIn_perm hperm hids]
  rw [Blocked, Blocked, hdeep]
  simp only [hperm.mem_iff]

theorem blocked_evolves {names : List String} (h : Evolves lower names rows rows')
    (hname : lower seed.name ∉ names) (hparent : ∀ id ∈ parentId, id ∈ rows.map (·.id))
    (hblocked : Blocked lower rows seed parentId) : Blocked lower rows' seed parentId := by
  have hnamed : ∀ row, lower row.name = lower seed.name → row ∈ rows → row ∈ rows' := by
    intro row hrow hmem
    have hin : row ∈ named lower rows (lower seed.name) := List.mem_filter.mpr ⟨hmem, decide_eq_true hrow⟩
    rw [← h.named _ hname] at hin
    exact (List.mem_filter.mp hin).1
  rcases hblocked with ⟨row, hmem, hoff, hscope⟩ | ⟨row, hmem, hon, hrow⟩ | ⟨row, hmem, hon, hslug⟩ |
    ⟨parent, hsome, hdeep⟩
  · exact .inl ⟨row, hnamed row hscope.1 hmem, hoff, hscope⟩
  · exact .inr (.inl ⟨row, hnamed row hrow hmem, hon, hrow⟩)
  · obtain ⟨kept, created, rfl, hkept⟩ := h.kept
    obtain ⟨row', hmem', hrow'⟩ := exists_kept_left hkept hmem
    refine .inr (.inr (.inl ⟨row', List.mem_append_left _ hmem', ?_, hrow'.slug.trans hslug⟩))
    rw [CategoryRow.IsActive, hrow'.columns]
    exact hon
  · refine .inr (.inr (.inr ⟨parent, hsome, ?_⟩))
    exact hdeep.trans (h.depth parent (hparent parent hsome)).ge

def Extends (resolved resolved' : List (String × Uuid)) : Prop :=
  ∀ name id, Dict.find name resolved' = some id → Dict.find name resolved = some id

theorem Extends.put_left {resolved resolved' : List (String × Uuid)} (h : Extends resolved resolved') {name : String}
    (hnone : Dict.find name resolved = none) (id : Uuid) : Extends (Dict.put name id resolved) resolved' := by
  intro other found hfind
  have hold := h other found hfind
  have hne : name ≠ other := by
    rintro rfl
    rw [hnone] at hold
    exact absurd hold (by simp)
  rw [Dict.put, Dict.find_upsert_of_ne hne, hold]

theorem Extends.put {resolved resolved' : List (String × Uuid)} (h : Extends resolved resolved') (name : String)
    (id : Uuid) : Extends (Dict.put name id resolved) (Dict.put name id resolved') := by
  intro other found hfind
  by_cases hname : name = other
  · subst hname
    rw [Dict.put, Dict.find_upsert_self] at hfind ⊢
    exact hfind
  · rw [Dict.put, Dict.find_upsert_of_ne hname] at hfind ⊢
    exact h other found hfind

theorem parentOf_extends {resolved resolved' : List (String × Uuid)} (h : Extends resolved resolved')
    (hparent : parentOf resolved' seed = some parentId) : parentOf resolved seed = some parentId := by
  rw [parentOf] at hparent ⊢
  split
  next hnone => rwa [hnone] at hparent
  next parent hsome =>
    rw [hsome] at hparent
    obtain ⟨id, hfind, heq⟩ := Option.map_eq_some_iff.mp hparent
    rw [h _ _ hfind, Option.map_some, heq]

theorem extends_planStep (hready : Ready newId (seed :: seeds) state)
    (hextends : Extends state.resolved state'.resolved) :
    Extends (planStep lower true newId state seed).resolved state'.resolved := by
  have hnone := hready.unresolved seed List.mem_cons_self
  have hturn := planStep_turn lower newId true state seed
  generalize planStep lower true newId state seed = next at hturn ⊢
  cases hturn with
  | missing => exact hextends
  | skipped => exact hextends
  | found => exact hextends.put_left hnone _
  | created => exact hextends.put_left hnone _

theorem second_turn {final : List CategoryRow} {names : List String} (hready : Ready newId (seed :: seeds) state)
    (hset : SetValues seed) (hname : lower seed.name ∉ names)
    (hevolves : Evolves lower names (planStep lower true newId state seed).rows final)
    (hids : (final.map (·.id)).Nodup) (hperm : state'.rows.Perm final)
    (hextends : Extends state.resolved state'.resolved) :
    (planStep lower true newId' state' seed).rows = state'.rows ∧
      Extends (planStep lower true newId state seed).resolved (planStep lower true newId' state' seed).resolved ∧
      ∃ outcome, (planStep lower true newId' state' seed).outcomes = state'.outcomes ++ [outcome] ∧
        (outcome.action = .unchanged ∨ outcome.action = .skipped) := by
  have hkeep := @extends_planStep lower seed seeds newId _ _ hready hextends
  have hnone := hready.unresolved seed List.mem_cons_self
  -- what the second run sees of this seed row is what the first turn left
  have hanswers : ∀ parentId, (answers lower state'.rows seed parentId).Perm
      (answers lower (planStep lower true newId state seed).rows seed parentId) := by
    intro parentId
    have hsame : answers lower final seed parentId =
        answers lower (planStep lower true newId state seed).rows seed parentId := by
      rw [answers_eq_filter, answers_eq_filter, hevolves.named _ hname]
    exact hsame ▸ hperm.filter _
  have hturn' := planStep_turn lower newId' true state' seed
  generalize planStep lower true newId' state' seed = next' at hturn' ⊢
  have hturn := planStep_turn lower newId true state seed
  generalize planStep lower true newId state seed = next at hturn hevolves hkeep hanswers ⊢
  cases hturn' with
  | missing => exact ⟨rfl, hkeep, _, rfl, .inr rfl⟩
  | skipped => exact ⟨rfl, hkeep, _, rfl, .inr rfl⟩
  | found parentId existing' hparent' hanswers' =>
    have hparent := parentOf_extends hextends hparent'
    have hone := hanswers parentId
    rw [hanswers'] at hone
    cases hturn with
    | missing hmissing =>
      rw [hparent] at hmissing
      exact absurd hmissing (by simp)
    | skipped parentId₁ detail hparent₁ hwhy =>
      obtain rfl := Option.some.inj (hparent.symm.trans hparent₁)
      have hlength : 1 = (answers lower state.rows seed parentId).length := hone.length_eq
      rcases hwhy with hmany | ⟨hempty, -⟩
      · omega
      · rw [hempty] at hlength
        exact absurd hlength (by simp)
    | found parentId₁ existing hparent₁ hfound =>
      obtain rfl := Option.some.inj (hparent.symm.trans hparent₁)
      rw [answers_rowsFound hfound] at hone
      obtain rfl : existing' = fill seed (fillableFields existing seed) existing := by simpa using hone
      have hnothing := fillableFields_fill hset existing
      refine ⟨rowsFound_nil true hnothing _, hextends.put _ _, _, rfl, .inl ?_⟩
      rw [outcomeOf, if_pos hnothing]
    | created parentId₁ hparent₁ hempty =>
      obtain rfl := Option.some.inj (hparent.symm.trans hparent₁)
      rw [answers_append_newRow hempty] at hone
      obtain rfl : existing' = newRow seed (newId seed.name) parentId := by simpa using hone
      have hnothing := fillableFields_newRow hset (newId seed.name) parentId
      refine ⟨rowsFound_nil true hnothing _, hextends.put _ _, _, rfl, .inl ?_⟩
      rw [outcomeOf, if_pos hnothing]
  | created parentId hparent' hanswers' hfree' =>
    have hparent := parentOf_extends hextends hparent'
    have hone := hanswers parentId
    rw [hanswers', List.nil_perm] at hone
    exfalso
    cases hturn with
    | missing hmissing =>
      rw [hparent] at hmissing
      exact absurd hmissing (by simp)
    | skipped parentId₁ detail hparent₁ hwhy =>
      obtain rfl := Option.some.inj (hparent.symm.trans hparent₁)
      rcases hwhy with hmany | ⟨-, hblocked⟩
      · have hlength : (answers lower state.rows seed parentId).length = 0 := congrArg List.length hone
        omega
      · exact hfree' ((blocked_perm hperm hids).mpr (@blocked_evolves lower state.rows _ seed parentId _ hevolves
          hname (parentOf_mem hready hparent) hblocked))
    | found parentId₁ existing hparent₁ hfound =>
      obtain rfl := Option.some.inj (hparent.symm.trans hparent₁)
      rw [answers_rowsFound hfound] at hone
      exact absurd hone (List.cons_ne_nil _ _)
    | created parentId₁ hparent₁ hempty =>
      obtain rfl := Option.some.inj (hparent.symm.trans hparent₁)
      rw [answers_append_newRow hempty] at hone
      exact absurd hone (List.cons_ne_nil _ _)

theorem second_run (hready : Ready newId seeds state) (hset : ∀ seed ∈ seeds, SetValues seed)
    (hnames : (seeds.map fun seed => lower seed.name).Nodup)
    (hperm : state'.rows.Perm (seeds.foldl (planStep lower true newId) state).rows)
    (hextends : Extends state.resolved state'.resolved) :
    (seeds.foldl (planStep lower true newId') state').rows = state'.rows ∧
      ∀ outcome ∈ (seeds.foldl (planStep lower true newId') state').outcomes,
        outcome ∈ state'.outcomes ∨ outcome.action = .unchanged ∨ outcome.action = .skipped := by
  induction seeds generalizing state state' with
  | nil => exact ⟨rfl, fun _ h => .inl h⟩
  | cons seed seeds ih =>
    rw [List.map_cons, List.nodup_cons] at hnames
    rw [List.forall_mem_cons] at hset
    have hready' : Ready newId seeds (planStep lower true newId state seed) := ready_planStep hready
    obtain ⟨hrows, hkeep, outcome, houtcomes, haction⟩ := @second_turn lower seed seeds newId newId' state state' _ _
      hready hset.1 hnames.1 (evolves_run hready') (ready_run hready').ids hperm hextends
    obtain ⟨hrest, hall⟩ := ih hready' hset.2 hnames.2 (hrows ▸ hperm) hkeep
    rw [List.foldl_cons]
    refine ⟨hrest.trans hrows, fun found hfound => ?_⟩
    rcases hall found hfound with hold | hnew
    · rw [houtcomes, List.mem_append, List.mem_singleton] at hold
      rcases hold with hold | rfl
      · exact .inl hold
      · exact .inr haction
    · exact .inr hnew

end SecondRun

/-- The ids that `uuid4` gives: one for each name, none in use -/
structure Fresh (newId : String → Uuid) (seeds : List SeedCategory) (rows : List CategoryRow) : Prop where
  distinct : (seeds.map fun seed => newId seed.name).Nodup
  unused : ∀ seed ∈ seeds, ∀ row ∈ rows, row.id ≠ newId seed.name ∧ row.parentId ≠ some (newId seed.name)

theorem ready_start (hids : (rows.map (·.id)).Nodup) (hfresh : Fresh newId seeds rows) :
    Ready newId seeds ⟨rows, [], []⟩ :=
  ⟨hids, hfresh.unused, hfresh.distinct, fun _ _ h => absurd h (by simp [Dict.find]), fun _ _ => rfl⟩

theorem forall₂_sim_self {ρ : Uuid → Uuid} (h : ∀ row ∈ rows, ρ row.id = row.id ∧ row.parentId.map ρ = row.parentId) :
    List.Forall₂ (SimRow lower ρ []) rows rows :=
  List.forall₂_same.mpr fun row hrow =>
    ⟨(h row hrow).1.symm, (h row hrow).2.symm, rfl, rfl, rfl, fun _ => rfl⟩

theorem dry_run (hids : (rows.map (·.id)).Nodup) (hnames : (seeds.map fun seed => lower seed.name).Nodup)
    (hfresh : Fresh newId seeds rows) (hfresh' : Fresh newId' seeds rows) :
    (planWorkspace lower false newId' rows seeds).outcomes.map reported =
      (planWorkspace lower true newId rows seeds).outcomes.map reported := by
  have hunused : ∀ {newId : String → Uuid}, Fresh newId seeds rows →
      ∀ seed ∈ seeds, ¬∃ row ∈ rows, row.id = newId seed.name ∨ row.parentId = some (newId seed.name) := by
    rintro newId hfresh seed hseed ⟨row, hrow, hid | hparent⟩
    · exact (hfresh.unused seed hseed row hrow).1 hid
    · exact (hfresh.unused seed hseed row hrow).2 hparent
  obtain ⟨ρ, hfix, hmap⟩ := @exists_perm_extending SeedCategory Uuid _ seeds (fun seed => newId seed.name)
    (fun seed => newId' seed.name) (fun id => ∃ row ∈ rows, row.id = id ∨ row.parentId = some id) hfresh.distinct
    hfresh'.distinct (hunused hfresh) (hunused hfresh')
  refine run_sim ρ.injective (ready_start hids hfresh) hnames (fun _ _ => List.not_mem_nil) hmap
    ⟨forall₂_sim_self fun row hrow => ⟨hfix _ ⟨row, hrow, .inl rfl⟩, ?_⟩, rfl, rfl⟩
  cases hparent : row.parentId with
  | none => rfl
  | some parent => rw [Option.map_some, hfix parent ⟨row, hrow, .inr hparent⟩]

/-- The dry run says what the run does; the run only adds; a second run finds nothing to do. -/
theorem seed_idempotent_additive {lower : String → String} {rows : List CategoryRow} {seeds : List SeedCategory}
    {newId newId' newId'' : String → Uuid} (hids : (rows.map (·.id)).Nodup)
    (hnames : (seeds.map fun seed => lower seed.name).Nodup) (hset : ∀ seed ∈ seeds, SetValues seed)
    (hfresh : Fresh newId seeds rows) (hfresh' : Fresh newId' seeds rows) :
    (planWorkspace lower false newId' rows seeds).outcomes.map reported =
        (planWorkspace lower true newId rows seeds).outcomes.map reported ∧
      Additive lower seeds rows (planWorkspace lower true newId rows seeds).rows ∧
      ∀ after, after.Perm (planWorkspace lower true newId rows seeds).rows →
        (planWorkspace lower true newId'' after seeds).rows = after ∧
          ∀ outcome ∈ (planWorkspace lower true newId'' after seeds).outcomes,
            outcome.action ≠ .created ∧ outcome.action ≠ .updated := by
  have hready := ready_start hids hfresh
  refine ⟨dry_run hids hnames hfresh hfresh', additive_run hready, fun after hperm => ?_⟩
  obtain ⟨hrows, hall⟩ := @second_run lower seeds newId newId'' _ ⟨after, [], []⟩ hready hset hnames hperm
    fun _ _ h => absurd h (by simp [Dict.find])
  refine ⟨hrows, fun outcome houtcome => ?_⟩
  rcases (hall outcome houtcome).resolve_left List.not_mem_nil with haction | haction <;>
    rw [haction] <;> decide

def sampleSeed (name slug : String) (description : FieldValue) : SeedCategory where
  name := name
  librarySlug := slug
  parent := none
  sortOrder := 0
  values
    | .description => description
    | _ => .null

/-- An id beyond those in the samples -/
def sampleId (name : String) : Uuid := 100 + name.length

def sampleRow : CategoryRow where
  id := 1
  name := "Diodes"
  sortOrder := 0
  parentId := none
  archivedAt := none
  librarySlug := "diodes"
  values _ := .null

theorem sampleSeed_set (name slug text : String) (h : strip text ≠ "") :
    SetValues (sampleSeed name slug (.text text)) := by
  intro field
  cases field with
  | description =>
    refine .inr ?_
    show decide (SeedField.description ≠ .kicadFields ∧ strip text = "") = false
    simp [h]
  | _ => exact .inl rfl

theorem seed_idempotent_additive_resistors :
    ((planWorkspace id true sampleId [sampleRow] [sampleSeed "Resistors" "resistors" (.text "R")]).outcomes.map
        (·.action)) = [.created] ∧
      ∀ outcome ∈ (planWorkspace id true sampleId
          (planWorkspace id true sampleId [sampleRow] [sampleSeed "Resistors" "resistors" (.text "R")]).rows
          [sampleSeed "Resistors" "resistors" (.text "R")]).outcomes,
        outcome.action ≠ .created ∧ outcome.action ≠ .updated := by
  have hfresh : Fresh sampleId [sampleSeed "Resistors" "resistors" (.text "R")] [sampleRow] :=
    ⟨List.nodup_singleton _, fun seed hseed row hrow => by
      rw [List.mem_singleton.mp hseed, List.mem_singleton.mp hrow]
      exact ⟨by decide, by decide⟩⟩
  obtain ⟨-, -, hsecond⟩ := @seed_idempotent_additive id [sampleRow]
    [sampleSeed "Resistors" "resistors" (.text "R")] sampleId sampleId sampleId (by decide) (by simp)
    (fun seed hseed => List.mem_singleton.mp hseed ▸ sampleSeed_set _ _ _ (by decide)) hfresh hfresh
  exact ⟨by decide, (hsecond _ (List.Perm.refl _)).2⟩

/-- A blank description is filled again and again, and of two names that differ in case the first
fills the row that the second finds. -/
theorem blank_value_and_equal_names :
    ((planWorkspace String.toLower true sampleId
        (planWorkspace String.toLower true sampleId [] [sampleSeed "Diodes" "diodes" (.text "")]).rows
        [sampleSeed "Diodes" "diodes" (.text "")]).outcomes.map (·.action)) = [.updated] ∧
      (planWorkspace String.toLower false sampleId [sampleRow]
          [sampleSeed "Diodes" "diodes" (.text "a"), sampleSeed "diodes" "small" (.text "b")]).outcomes.map reported ≠
        (planWorkspace String.toLower true sampleId [sampleRow]
          [sampleSeed "Diodes" "diodes" (.text "a"), sampleSeed "diodes" "small" (.text "b")]).outcomes.map
            reported := by
  constructor <;> decide +kernel

end StockManager.CategorySeed
