import StockManager.Effects.CategoryWalks
import StockManager.Model.CategorySeed

/-! # Runs of the category seed -/

namespace StockManager.CategorySeed

open Categories (ParentMap loadParentMap depthOf ancestorsFrom)

variable {lower : String → String} {rows rows' rows'' : List CategoryRow} {row row' existing : CategoryRow}
  {seed : SeedCategory} {parentId : Option Uuid} {newId : String → Uuid}

def named (lower : String → String) (rows : List CategoryRow) (name : String) : List CategoryRow :=
  rows.filter fun row => lower row.name = name

theorem answers_eq_filter (seed : SeedCategory) (parentId : Option Uuid) :
    answers lower rows seed parentId = (named lower rows (lower seed.name)).filter fun row =>
      row.IsActive ∧ (seed.parent = none ∨ row.parentId = parentId) := by
  rw [answers, named, List.filter_filter]
  refine List.filter_congr fun row _ => ?_
  rw [← Bool.decide_and, decide_eq_decide, InScope]
  tauto

theorem mem_answers :
    row ∈ answers lower rows seed parentId ↔ row ∈ rows ∧ row.IsActive ∧ InScope lower seed parentId row := by
  rw [answers, List.mem_filter, decide_eq_true_eq]

def TooDeep (rows : List CategoryRow) (parentId : Option Uuid) : Prop :=
  ∃ parent ∈ parentId, maxDepth ≤ depthOf (loadParentMap (rows.map (·.toPartCategory))) parent

def Blocked (lower : String → String) (rows : List CategoryRow) (seed : SeedCategory) (parentId : Option Uuid) :
    Prop :=
  (∃ row ∈ rows, ¬row.IsActive ∧ InScope lower seed parentId row) ∨
    (∃ row ∈ rows, row.IsActive ∧ lower row.name = lower seed.name) ∨
    (∃ row ∈ rows, row.IsActive ∧ row.librarySlug = seed.librarySlug) ∨ TooDeep rows parentId

theorem getLast?_filter_isSome {p : CategoryRow → Prop} [DecidablePred p] :
    ((rows.filter fun row => p row).getLast?).isSome = true ↔ ∃ row ∈ rows, p row := by
  rw [List.getLast?_isSome, ne_eq, List.filter_eq_nil_iff]
  simp

theorem planUnder_found (id : Uuid) (h : answers lower rows seed parentId = [existing]) :
    planUnder lower id rows seed parentId = .found existing := by
  rw [planUnder, isAmbiguous, matchRow, h]
  rfl

theorem planUnder_ambiguous (id : Uuid) (h : 1 < (answers lower rows seed parentId).length) :
    ∃ detail, planUnder lower id rows seed parentId = .skip detail := by
  rw [planUnder, isAmbiguous, decide_eq_true h]
  exact ⟨_, rfl⟩

theorem planUnder_unanswered (id : Uuid) (h : answers lower rows seed parentId = []) :
    (Blocked lower rows seed parentId → ∃ detail, planUnder lower id rows seed parentId = .skip detail) ∧
      (¬Blocked lower rows seed parentId →
        planUnder lower id rows seed parentId = .create (newRow seed id parentId)) := by
  have hdeep : (parentId.any fun parent =>
      maxDepth ≤ depthOf (loadParentMap (rows.map (·.toPartCategory))) parent) = true ↔ TooDeep rows parentId := by
    cases parentId <;> simp [TooDeep]
  rw [planUnder, isAmbiguous, matchRow, h]
  rw [if_neg (by simp)]
  simp only [List.getLast?_nil]
  split
  next harchived =>
    exact ⟨fun _ => ⟨_, rfl⟩, fun hfree => absurd (.inl (getLast?_filter_isSome.mp harchived)) hfree⟩
  next harchived =>
    split
    next clash hclash =>
      have hname := getLast?_filter_isSome.mp (Option.isSome_of_eq_some hclash)
      exact ⟨fun _ => ⟨_, rfl⟩, fun hfree => absurd (.inr (.inl hname)) hfree⟩
    next hname =>
      split
      next clash hclash =>
        have hslug := getLast?_filter_isSome.mp (Option.isSome_of_eq_some hclash)
        exact ⟨fun _ => ⟨_, rfl⟩, fun hfree => absurd (.inr (.inr (.inl hslug))) hfree⟩
      next hslug =>
        have hnone : ∀ {p : CategoryRow → Prop} [DecidablePred p],
            (rows.filter fun row => p row).getLast? = none → ¬∃ row ∈ rows, p row := by
          intro p _ hnone hsome
          rw [← getLast?_filter_isSome, hnone] at hsome
          exact Bool.false_ne_true hsome
        split
        next hany => exact ⟨fun _ => ⟨_, rfl⟩, fun hfree => absurd (.inr (.inr (.inr (hdeep.mp hany)))) hfree⟩
        next hany =>
          refine ⟨fun hblocked => ?_, fun _ => rfl⟩
          rcases hblocked with h1 | h2 | h3 | h4
          · exact absurd (getLast?_filter_isSome.mpr h1) harchived
          · exact absurd h2 (hnone hname)
          · exact absurd h3 (hnone hslug)
          · exact absurd (hdeep.mpr h4) hany

theorem planUnder_cases (lower : String → String) (rows : List CategoryRow) (seed : SeedCategory)
    (parentId : Option Uuid) (id : Uuid) :
    (∃ detail, planUnder lower id rows seed parentId = .skip detail ∧
        (1 < (answers lower rows seed parentId).length ∨
          answers lower rows seed parentId = [] ∧ Blocked lower rows seed parentId)) ∨
      (∃ existing, planUnder lower id rows seed parentId = .found existing ∧
        answers lower rows seed parentId = [existing]) ∨
      (planUnder lower id rows seed parentId = .create (newRow seed id parentId) ∧
        answers lower rows seed parentId = [] ∧ ¬Blocked lower rows seed parentId) := by
  cases hanswers : answers lower rows seed parentId with
  | nil =>
    obtain ⟨hskip, hcreate⟩ := planUnder_unanswered id hanswers
    by_cases hblocked : Blocked lower rows seed parentId
    · obtain ⟨detail, hdetail⟩ := hskip hblocked
      exact .inl ⟨detail, hdetail, .inr ⟨rfl, hblocked⟩⟩
    · exact .inr (.inr ⟨hcreate hblocked, rfl, hblocked⟩)
  | cons existing more =>
    cases more with
    | nil => exact .inr (.inl ⟨existing, planUnder_found id hanswers, rfl⟩)
    | cons another more =>
      have hmany : 1 < (answers lower rows seed parentId).length := by
        rw [hanswers, List.length_cons, List.length_cons]
        omega
      obtain ⟨detail, hdetail⟩ := planUnder_ambiguous id hmany
      exact .inl ⟨detail, hdetail, .inl (hanswers ▸ hmany)⟩

section Turns

variable {state : PlanState} {seeds : List SeedCategory} {apply : Bool}

/-- What a run needs of the rows: ids that no seed row to come will get, and parents that are there -/
structure Ready (newId : String → Uuid) (seeds : List SeedCategory) (state : PlanState) : Prop where
  ids : (state.rows.map (·.id)).Nodup
  fresh : ∀ seed ∈ seeds, ∀ row ∈ state.rows, row.id ≠ newId seed.name ∧ row.parentId ≠ some (newId seed.name)
  distinct : (seeds.map fun seed => newId seed.name).Nodup
  resolved : ∀ name id, Dict.find name state.resolved = some id → id ∈ state.rows.map (·.id)
  unresolved : ∀ seed ∈ seeds, Dict.find seed.name state.resolved = none

def rowsFound (apply : Bool) (rows : List CategoryRow) (existing : CategoryRow) (seed : SeedCategory) :
    List CategoryRow :=
  if apply then
    rows.map fun row => if row.id = existing.id then fill seed (fillableFields existing seed) row else row
  else rows

theorem planStep_skip {detail : String}
    (h : planOne lower (newId seed.name) state.rows state.resolved seed = .skip detail) :
    planStep lower apply newId state seed =
      { state with outcomes := state.outcomes ++ [outcomeOf apply seed (.skip detail)] } := by
  rw [planStep, h]

theorem planStep_found (h : planOne lower (newId seed.name) state.rows state.resolved seed = .found existing) :
    planStep lower apply newId state seed =
      ⟨rowsFound apply state.rows existing seed, Dict.put seed.name existing.id state.resolved,
        state.outcomes ++ [outcomeOf apply seed (.found existing)]⟩ := by
  rw [planStep, h]
  rfl

theorem planStep_create (h : planOne lower (newId seed.name) state.rows state.resolved seed = .create row) :
    planStep lower apply newId state seed =
      ⟨state.rows ++ [row], Dict.put seed.name row.id state.resolved,
        state.outcomes ++ [outcomeOf apply seed (.create row)]⟩ := by
  rw [planStep, h]

/-- A turn by what the seed row resolves to -/
inductive Turn (lower : String → String) (newId : String → Uuid) (apply : Bool) (state : PlanState)
    (seed : SeedCategory) : PlanState → Prop
  | missing : parentOf state.resolved seed = none →
      Turn lower newId apply state seed
        { state with outcomes := state.outcomes ++ [⟨pathOf seed, .skipped, none, reasonParentMissing⟩] }
  | skipped (parentId : Option Uuid) (detail : String) : parentOf state.resolved seed = some parentId →
      (1 < (answers lower state.rows seed parentId).length ∨
        answers lower state.rows seed parentId = [] ∧ Blocked lower state.rows seed parentId) →
      Turn lower newId apply state seed
        { state with outcomes := state.outcomes ++ [⟨pathOf seed, .skipped, none, detail⟩] }
  | found (parentId : Option Uuid) (existing : CategoryRow) : parentOf state.resolved seed = some parentId →
      answers lower state.rows seed parentId = [existing] →
      Turn lower newId apply state seed
        ⟨rowsFound apply state.rows existing seed, Dict.put seed.name existing.id state.resolved,
          state.outcomes ++ [outcomeOf apply seed (.found existing)]⟩
  | created (parentId : Option Uuid) : parentOf state.resolved seed = some parentId →
      answers lower state.rows seed parentId = [] → ¬Blocked lower state.rows seed parentId →
      Turn lower newId apply state seed
        ⟨state.rows ++ [newRow seed (newId seed.name) parentId],
          Dict.put seed.name (newId seed.name) state.resolved,
          state.outcomes ++ [outcomeOf apply seed (.create (newRow seed (newId seed.name) parentId))]⟩

theorem planStep_turn (lower : String → String) (newId : String → Uuid) (apply : Bool) (state : PlanState)
    (seed : SeedCategory) : Turn lower newId apply state seed (planStep lower apply newId state seed) := by
  cases hparent : parentOf state.resolved seed with
  | none =>
    have hone : planOne lower (newId seed.name) state.rows state.resolved seed = .skip reasonParentMissing := by
      rw [planOne, hparent]
    rw [planStep_skip hone]
    exact .missing hparent
  | some parentId =>
    have hone : planOne lower (newId seed.name) state.rows state.resolved seed =
        planUnder lower (newId seed.name) state.rows seed parentId := by
      rw [planOne, hparent]
    rcases planUnder_cases lower state.rows seed parentId (newId seed.name) with
      ⟨detail, hplan, hwhy⟩ | ⟨existing, hplan, hanswers⟩ | ⟨hplan, hanswers, hfree⟩
    · rw [planStep_skip (hone.trans hplan)]
      exact .skipped parentId detail hparent hwhy
    · rw [planStep_found (hone.trans hplan)]
      exact .found parentId existing hparent hanswers
    · rw [planStep_create (hone.trans hplan)]
      exact .created parentId hparent hanswers hfree

theorem mem_of_answers (h : answers lower rows seed parentId = [existing]) :
    existing ∈ rows ∧ existing.IsActive ∧ InScope lower seed parentId existing :=
  mem_answers.mp (h ▸ List.mem_singleton_self existing)

theorem parentOf_mem (hready : Ready newId seeds state) (hparent : parentOf state.resolved seed = some parentId) :
    ∀ id ∈ parentId, id ∈ state.rows.map (·.id) := by
  intro id hid
  obtain rfl := Option.mem_def.mp hid
  rw [parentOf] at hparent
  split at hparent
  next => exact absurd (Option.some.inj hparent) (by simp)
  next parent _ =>
    obtain ⟨found, hfind, heq⟩ := Option.map_eq_some_iff.mp hparent
    exact hready.resolved _ _ (Option.some.inj heq ▸ hfind)

theorem rowsFound_columns (apply : Bool) (rows : List CategoryRow) (existing : CategoryRow) (seed : SeedCategory) :
    (rowsFound apply rows existing seed).map (fun row => (row.toPartCategory, row.librarySlug)) =
      rows.map fun row => (row.toPartCategory, row.librarySlug) := by
  unfold rowsFound
  split
  next =>
    rw [List.map_map]
    refine List.map_congr_left fun row _ => ?_
    rw [Function.comp_apply]
    split <;> rfl
  next => rfl

theorem map_rowsFound {β : Type} (f : Categories.PartCategory → String → β) (apply : Bool) (rows : List CategoryRow)
    (existing : CategoryRow) (seed : SeedCategory) :
    (rowsFound apply rows existing seed).map (fun row => f row.toPartCategory row.librarySlug) =
      rows.map fun row => f row.toPartCategory row.librarySlug := by
  have h := congrArg (List.map fun item => f item.1 item.2) (rowsFound_columns apply rows existing seed)
  rw [List.map_map, List.map_map] at h
  exact h

theorem name_ne_of_distinct {s : SeedCategory} (hready : Ready newId (seed :: seeds) state) (hs : s ∈ seeds) :
    seed.name ≠ s.name := fun heq =>
  (List.nodup_cons.mp hready.distinct).1 (List.mem_map.mpr ⟨s, hs, congrArg newId heq.symm⟩)

theorem unresolved_put (hready : Ready newId (seed :: seeds) state) (id : Uuid) :
    ∀ s ∈ seeds, Dict.find s.name (Dict.put seed.name id state.resolved) = none := by
  intro s hs
  rw [Dict.put, Dict.find_upsert_of_ne (name_ne_of_distinct hready hs)]
  exact hready.unresolved s (List.mem_cons_of_mem _ hs)

theorem ready_found (hready : Ready newId (seed :: seeds) state) (hmem : existing ∈ state.rows)
    (outcomes : List SeedOutcome) :
    Ready newId seeds ⟨rowsFound apply state.rows existing seed, Dict.put seed.name existing.id state.resolved,
      outcomes⟩ := by
  have hids : (rowsFound apply state.rows existing seed).map (·.id) = state.rows.map (·.id) :=
    map_rowsFound (fun row _ => row.id) apply state.rows existing seed
  have hparents : (rowsFound apply state.rows existing seed).map (fun row => (row.id, row.parentId)) =
      state.rows.map fun row => (row.id, row.parentId) :=
    map_rowsFound (fun row _ => (row.id, row.parentId)) apply state.rows existing seed
  refine ⟨hids ▸ hready.ids, fun s hs row hrow => ?_, (List.nodup_cons.mp hready.distinct).2, fun name id hfind => ?_,
    unresolved_put hready _⟩
  · have hpair : (row.id, row.parentId) ∈
        (rowsFound apply state.rows existing seed).map fun row => (row.id, row.parentId) := List.mem_map_of_mem hrow
    rw [hparents] at hpair
    obtain ⟨old, hold, heq⟩ := List.mem_map.mp hpair
    obtain ⟨hid, hparent⟩ := Prod.mk.inj heq
    rw [← hid, ← hparent]
    exact hready.fresh s (List.mem_cons_of_mem _ hs) old hold
  · rw [hids]
    by_cases hname : seed.name = name
    · subst hname
      rw [Dict.put, Dict.find_upsert_self] at hfind
      exact Option.some.inj hfind ▸ List.mem_map_of_mem hmem
    · rw [Dict.put, Dict.find_upsert_of_ne hname] at hfind
      exact hready.resolved _ _ hfind

theorem ready_create (hready : Ready newId (seed :: seeds) state)
    (hparent : ∀ id ∈ parentId, id ∈ state.rows.map (·.id)) (outcomes : List SeedOutcome) :
    Ready newId seeds ⟨state.rows ++ [newRow seed (newId seed.name) parentId],
      Dict.put seed.name (newId seed.name) state.resolved, outcomes⟩ := by
  obtain ⟨hnew, hdistinct⟩ := List.nodup_cons.mp hready.distinct
  have hself := hready.fresh seed List.mem_cons_self
  refine ⟨?_, fun s hs row hrow => ?_, hdistinct, fun name id hfind => ?_, unresolved_put hready _⟩
  · rw [List.map_append, List.map_singleton, List.nodup_append]
    refine ⟨hready.ids, List.nodup_singleton _, fun a ha b hb => ?_⟩
    obtain ⟨row, hrow, rfl⟩ := List.mem_map.mp ha
    rw [List.mem_singleton.mp hb]
    exact (hself row hrow).1
  · have hne : newId seed.name ≠ newId s.name := fun heq => hnew (List.mem_map.mpr ⟨s, hs, heq.symm⟩)
    rcases List.mem_append.mp hrow with hold | hlast
    · exact hready.fresh s (List.mem_cons_of_mem _ hs) row hold
    · rw [List.mem_singleton.mp hlast]
      refine ⟨hne, fun heq => ?_⟩
      obtain ⟨old, hold, hid⟩ := List.mem_map.mp (hparent _ heq)
      exact (hready.fresh s (List.mem_cons_of_mem _ hs) old hold).1 hid
  · rw [List.map_append, List.mem_append]
    by_cases hname : seed.name = name
    · subst hname
      rw [Dict.put, Dict.find_upsert_self] at hfind
      exact .inr (List.mem_singleton.mpr (Option.some.inj hfind).symm)
    · rw [Dict.put, Dict.find_upsert_of_ne hname] at hfind
      exact .inl (hready.resolved _ _ hfind)

theorem ready_planStep (hready : Ready newId (seed :: seeds) state) :
    Ready newId seeds (planStep lower apply newId state seed) := by
  have hkept : ∀ outcomes, Ready newId seeds { state with outcomes := outcomes } := fun _ =>
    ⟨hready.ids, fun s hs => hready.fresh s (List.mem_cons_of_mem _ hs), (List.nodup_cons.mp hready.distinct).2,
      hready.resolved, fun s hs => hready.unresolved s (List.mem_cons_of_mem _ hs)⟩
  have hturn := planStep_turn lower newId apply state seed
  generalize planStep lower apply newId state seed = next at hturn ⊢
  cases hturn with
  | missing => exact hkept _
  | skipped => exact hkept _
  | found parentId existing _ hanswers => exact ready_found hready (mem_of_answers hanswers).1 _
  | created parentId hparent => exact ready_create hready (parentOf_mem hready hparent) _

end Turns

/-- Name, place, order, slug and every field that is set stay. -/
structure Kept (row row' : CategoryRow) : Prop where
  columns : row'.toPartCategory = row.toPartCategory
  slug : row'.librarySlug = row.librarySlug
  values : ∀ field, isUnset field (row.values field) = false → row'.values field = row.values field

theorem Kept.refl (row : CategoryRow) : Kept row row := ⟨rfl, rfl, fun _ _ => rfl⟩

theorem Kept.trans (h : Kept row row') (h' : Kept row' existing) : Kept row existing := by
  refine ⟨h'.columns.trans h.columns, h'.slug.trans h.slug, fun field hset => ?_⟩
  have hfirst := h.values field hset
  rw [h'.values field (hfirst ▸ hset), hfirst]

theorem forall₂_kept_trans (h : List.Forall₂ Kept rows rows') (h' : List.Forall₂ Kept rows' rows'') :
    List.Forall₂ Kept rows rows'' := by
  induction h generalizing rows'' with
  | nil => exact h'
  | cons hrow _ ih =>
    cases h' with
    | cons hrow' hrest => exact .cons (hrow.trans hrow') (ih hrest)

theorem kept_fill (seed : SeedCategory) (row : CategoryRow) {fields : List SeedField}
    (h : ∀ field ∈ fields, isUnset field (row.values field) = true) : Kept row (fill seed fields row) := by
  refine ⟨rfl, rfl, fun field hset => ?_⟩
  show (if field ∈ fields then seed.values field else row.values field) = row.values field
  rw [if_neg]
  intro hmem
  rw [h field hmem] at hset
  exact Bool.false_ne_true hset.symm

theorem kept_rowsFound (apply : Bool) (hids : (rows.map (·.id)).Nodup) (hmem : existing ∈ rows) :
    List.Forall₂ Kept rows (rowsFound apply rows existing seed) := by
  unfold rowsFound
  split
  next =>
    refine List.forall₂_map_right_iff.mpr (List.forall₂_same.mpr fun row hrow => ?_)
    split
    next hid =>
      obtain rfl := List.inj_on_of_nodup_map hids hrow hmem hid
      refine kept_fill seed row fun field hfield => ?_
      exact (of_decide_eq_true (List.mem_filter.mp hfield).2).2
    next => exact Kept.refl row
  next => exact List.forall₂_same.mpr fun row _ => Kept.refl row

def depthIn (rows : List CategoryRow) (id : Uuid) : ℕ :=
  depthOf (loadParentMap (rows.map (·.toPartCategory))) id

theorem mem_ancestorsFrom {m : ParentMap} {current : Option Uuid} {seen : List Uuid} {id : Uuid}
    (h : id ∈ ancestorsFrom m current seen) : current = some id ∨ ∃ below, m.get below = some id := by
  induction current, seen using Categories.ancestorsFrom.induct m with
  | case1 seen =>
    rw [ancestorsFrom] at h
    exact absurd h List.not_mem_nil
  | case2 current seen hmem =>
    rw [ancestorsFrom, if_pos hmem] at h
    exact absurd h List.not_mem_nil
  | case3 current seen hmem ih =>
    rw [ancestorsFrom, if_neg hmem] at h
    rcases List.mem_cons.mp h with rfl | hrest
    · exact .inl rfl
    · exact .inr ((ih hrest).elim (fun hget => ⟨current, hget⟩) fun h => h)

theorem exists_of_get {rows : List CategoryRow} {below id : Uuid}
    (h : (loadParentMap (rows.map (·.toPartCategory))).get below = some id) :
    ∃ row ∈ rows, row.id = below ∧ row.parentId = some id := by
  have hfind : Dict.find below (loadParentMap (rows.map (·.toPartCategory))) = some (some id) :=
    Option.join_eq_some_iff.mp h
  obtain ⟨category, hcategory, heq⟩ := List.mem_map.mp (Dict.mem_of_find hfind)
  obtain ⟨row, hrow, rfl⟩ := List.mem_map.mp hcategory
  exact ⟨row, hrow, (Prod.mk.inj heq).1, (Prod.mk.inj heq).2⟩

def parentsIn (rows : List CategoryRow) : ParentMap := loadParentMap (rows.map (·.toPartCategory))

theorem find_parentsIn_append (x : Uuid) :
    Dict.find x (parentsIn (rows ++ [row])) =
      (Dict.find x (parentsIn rows)).or (if row.id = x then some row.parentId else none) := by
  have hmaps : parentsIn (rows ++ [row]) = parentsIn rows ++ [(row.id, row.parentId)] := by
    rw [parentsIn, loadParentMap, List.map_append, List.map_append]
    rfl
  rw [hmaps, Dict.find_append]
  rfl

theorem get_parentsIn_append {x : Uuid} (hx : x ≠ row.id) :
    (parentsIn (rows ++ [row])).get x = (parentsIn rows).get x := by
  rw [ParentMap.get, ParentMap.get, find_parentsIn_append, if_neg (Ne.symm hx), Option.or_none]

theorem ancestorsFrom_parentsIn_append {current : Option Uuid} {seen : List Uuid} (hcurrent : current ≠ some row.id)
    (hfresh : ∀ r ∈ rows, r.parentId ≠ some row.id) :
    ancestorsFrom (parentsIn (rows ++ [row])) current seen = ancestorsFrom (parentsIn rows) current seen := by
  refine CategorySettings.ancestorsFrom_agree current seen fun above habove => get_parentsIn_append ?_
  rintro rfl
  rcases mem_ancestorsFrom habove with hself | ⟨below, hbelow⟩
  · exact hcurrent hself
  · obtain ⟨r, hr, -, hparent⟩ := exists_of_get hbelow
    exact hfresh r hr hparent

theorem get_ne_of_fresh {x : Uuid} (hfresh : ∀ r ∈ rows, r.parentId ≠ some row.id) :
    (parentsIn rows).get x ≠ some row.id := by
  intro hget
  obtain ⟨r, hr, -, hparent⟩ := exists_of_get hget
  exact hfresh r hr hparent

theorem depthIn_append {id : Uuid} (hid : id ≠ row.id) (hfresh : ∀ r ∈ rows, r.parentId ≠ some row.id) :
    depthIn (rows ++ [row]) id = depthIn rows id := by
  have hwalk : Categories.ancestorIds (parentsIn (rows ++ [row])) id = Categories.ancestorIds (parentsIn rows) id := by
    rw [Categories.ancestorIds, Categories.ancestorIds, get_parentsIn_append hid]
    exact ancestorsFrom_parentsIn_append (get_ne_of_fresh hfresh) hfresh
  show 1 + (Categories.ancestorIds (parentsIn (rows ++ [row])) id).length =
    1 + (Categories.ancestorIds (parentsIn rows) id).length
  rw [hwalk]

theorem ancestorsFrom_seen {m : ParentMap} {x : Uuid} (hget : ∀ below, m.get below ≠ some x) {current : Option Uuid}
    {seen seen' : List Uuid} (hcurrent : current ≠ some x) (hseen : ∀ id, id ∈ seen' ↔ id ∈ seen ∨ id = x) :
    ancestorsFrom m current seen' = ancestorsFrom m current seen := by
  induction current, seen using Categories.ancestorsFrom.induct m generalizing seen' with
  | case1 seen => rw [ancestorsFrom, ancestorsFrom]
  | case2 current seen hmem => rw [ancestorsFrom, ancestorsFrom, if_pos hmem, if_pos ((hseen _).mpr (.inl hmem))]
  | case3 current seen hmem ih =>
    have hmem' : current ∉ seen' := fun h =>
      ((hseen current).mp h).elim hmem fun heq => hcurrent (congrArg some heq)
    have hseen' : ∀ id, id ∈ current :: seen' ↔ id ∈ current :: seen ∨ id = x := by
      intro id
      rw [List.mem_cons, List.mem_cons, hseen, or_assoc]
    rw [ancestorsFrom, ancestorsFrom, if_neg hmem, if_neg hmem', ih (hget current) hseen']

theorem depthIn_new (hid : ∀ r ∈ rows, r.id ≠ row.id) (hfresh : ∀ r ∈ rows, r.parentId ≠ some row.id)
    (hself : row.parentId ≠ some row.id) :
    depthIn (rows ++ [row]) row.id = row.parentId.elim 1 fun parent => 1 + depthIn rows parent := by
  have hnone : Dict.find row.id (parentsIn rows) = none := by
    rw [Dict.find_eq_none]
    intro hmem
    obtain ⟨item, hitem, heq⟩ := List.mem_map.mp hmem
    obtain ⟨category, hcategory, rfl⟩ := List.mem_map.mp hitem
    obtain ⟨r, hr, rfl⟩ := List.mem_map.mp hcategory
    exact hid r hr heq
  have hget : (parentsIn (rows ++ [row])).get row.id = row.parentId := by
    rw [ParentMap.get, find_parentsIn_append, hnone, if_pos rfl]
    rfl
  show 1 + (Categories.ancestorIds (parentsIn (rows ++ [row])) row.id).length = _
  rw [Categories.ancestorIds, hget]
  cases hparent : row.parentId with
  | none =>
    rw [ancestorsFrom]
    rfl
  | some parent =>
    have hne : parent ≠ row.id := fun heq => hself (hparent.trans (congrArg some heq))
    have hnot : parent ∉ [row.id] := fun hmem => hne (List.mem_singleton.mp hmem)
    have hrest : ancestorsFrom (parentsIn (rows ++ [row])) ((parentsIn (rows ++ [row])).get parent) [parent, row.id] =
        Categories.ancestorIds (parentsIn rows) parent := by
      rw [get_parentsIn_append hne, ancestorsFrom_parentsIn_append (get_ne_of_fresh hfresh) hfresh,
        Categories.ancestorIds]
      exact ancestorsFrom_seen (fun below => get_ne_of_fresh hfresh) (get_ne_of_fresh hfresh) (by simp)
    rw [ancestorsFrom, if_neg hnot, hrest, List.length_cons, Option.elim_some]
    show 1 + _ = 1 + (1 + (Categories.ancestorIds (parentsIn rows) parent).length)
    omega

/-- What seed rows of these names may change -/
structure Evolves (lower : String → String) (names : List String) (rows rows' : List CategoryRow) : Prop where
  named : ∀ n ∉ names, named lower rows' n = named lower rows n
  kept : ∃ kept created, rows' = kept ++ created ∧ List.Forall₂ Kept rows kept
  depth : ∀ id ∈ rows.map (·.id), depthIn rows' id = depthIn rows id

theorem Evolves.refl (names : List String) (rows : List CategoryRow) : Evolves lower names rows rows :=
  ⟨fun _ _ => rfl, ⟨rows, [], (List.append_nil _).symm, List.forall₂_same.mpr fun row _ => Kept.refl row⟩,
    fun _ _ => rfl⟩

theorem exists_of_forall₂_append {α β : Type} {R : α → β → Prop} {a b : List α} {l : List β}
    (h : List.Forall₂ R (a ++ b) l) : ∃ la lb, l = la ++ lb ∧ List.Forall₂ R a la ∧ List.Forall₂ R b lb := by
  induction a generalizing l with
  | nil => exact ⟨[], l, rfl, .nil, h⟩
  | cons x a ih =>
    cases h with
    | cons hx hrest =>
      obtain ⟨la, lb, rfl, ha, hb⟩ := ih hrest
      exact ⟨_ :: la, lb, rfl, .cons hx ha, hb⟩

theorem ids_of_kept (h : List.Forall₂ Kept rows rows') : rows'.map (·.id) = rows.map (·.id) := by
  induction h with
  | nil => rfl
  | cons hrow _ ih => rw [List.map_cons, List.map_cons, ih, hrow.columns]

theorem Evolves.trans {names : List String} {name : String} (h : Evolves lower [name] rows rows')
    (h' : Evolves lower names rows' rows'') : Evolves lower (name :: names) rows rows'' := by
  obtain ⟨kept, created, rfl, hkept⟩ := h.kept
  obtain ⟨kept', created', rfl, hkept'⟩ := h'.kept
  refine ⟨fun n hn => ?_, ?_, fun id hid => ?_⟩
  · rw [List.mem_cons, not_or] at hn
    rw [h'.named n hn.2, h.named n fun hmem => hn.1 (List.mem_singleton.mp hmem)]
  · obtain ⟨keptOld, keptNew, rfl, hold, -⟩ := exists_of_forall₂_append hkept'
    exact ⟨keptOld, keptNew ++ created', List.append_assoc _ _ _, forall₂_kept_trans hkept hold⟩
  · rw [h'.depth id, h.depth id hid]
    rw [List.map_append, List.mem_append, ids_of_kept hkept]
    exact .inl hid

section Runs

variable {state : PlanState} {seeds : List SeedCategory}

theorem named_rowsFound (hids : (rows.map (·.id)).Nodup) (hmem : existing ∈ rows)
    (hname : lower existing.name = lower seed.name) (apply : Bool) {n : String} (hn : n ≠ lower seed.name) :
    named lower (rowsFound apply rows existing seed) n = named lower rows n := by
  unfold rowsFound
  split
  next =>
    rw [named, named, List.filter_map]
    have hpred : (rows.filter ((fun row : CategoryRow => decide (lower row.name = n)) ∘ fun row =>
        if row.id = existing.id then fill seed (fillableFields existing seed) row else row)) =
        rows.filter fun row => lower row.name = n := by
      refine List.filter_congr fun row _ => ?_
      rw [Function.comp_apply]
      split <;> rfl
    rw [hpred]
    conv => rhs; rw [← List.map_id (rows.filter fun row => lower row.name = n)]
    refine List.map_congr_left fun row hrow => if_neg fun hid => ?_
    obtain ⟨hrow, hrown⟩ := List.mem_filter.mp hrow
    obtain rfl := List.inj_on_of_nodup_map hids hrow hmem hid
    exact hn ((of_decide_eq_true hrown).symm.trans hname)
  next => rfl

theorem depthIn_rowsFound (apply : Bool) (rows : List CategoryRow) (existing : CategoryRow) (seed : SeedCategory)
    (id : Uuid) : depthIn (rowsFound apply rows existing seed) id = depthIn rows id := by
  have hcolumns : (rowsFound apply rows existing seed).map (·.toPartCategory) = rows.map (·.toPartCategory) :=
    map_rowsFound (fun row _ => row) apply rows existing seed
  rw [depthIn, hcolumns, depthIn]

theorem evolves_planStep (hready : Ready newId (seed :: seeds) state) :
    Evolves lower [lower seed.name] state.rows (planStep lower true newId state seed).rows := by
  have hturn := planStep_turn lower newId true state seed
  generalize planStep lower true newId state seed = next at hturn ⊢
  cases hturn with
  | missing => exact .refl _ _
  | skipped => exact .refl _ _
  | found parentId existing _ hanswers =>
    obtain ⟨hmem, -, hname, -⟩ := mem_of_answers hanswers
    refine ⟨fun n hn => ?_, ⟨_, [], (List.append_nil _).symm, kept_rowsFound true hready.ids hmem⟩,
      fun id _ => depthIn_rowsFound true _ _ _ _⟩
    exact named_rowsFound hready.ids hmem hname true (List.mem_singleton.not.mp hn)
  | created parentId hparent =>
    have hself := hready.fresh seed List.mem_cons_self
    refine ⟨fun n hn => ?_, ⟨state.rows, _, rfl, List.forall₂_same.mpr fun row _ => Kept.refl row⟩, fun id hid => ?_⟩
    · have hne : ¬lower seed.name = n := fun heq => hn (List.mem_singleton.mpr heq.symm)
      rw [named, List.filter_append]
      simp [named, newRow, hne]
    · obtain ⟨row, hrow, rfl⟩ := List.mem_map.mp hid
      exact depthIn_append (hself row hrow).1 fun r hr => (hself r hr).2

theorem ready_run (hready : Ready newId seeds state) :
    Ready newId [] (seeds.foldl (planStep lower true newId) state) := by
  induction seeds generalizing state with
  | nil => exact hready
  | cons seed seeds ih => exact ih (ready_planStep hready)

theorem evolves_run (hready : Ready newId seeds state) :
    Evolves lower (seeds.map fun seed => lower seed.name) state.rows
      (seeds.foldl (planStep lower true newId) state).rows := by
  induction seeds generalizing state with
  | nil => exact .refl _ _
  | cons seed seeds ih => exact (evolves_planStep hready).trans (ih (ready_planStep hready))

/-- A row that the run created: within the cap, and alone with its name and slug -/
structure Created (lower : String → String) (rows : List CategoryRow) (row : CategoryRow) : Prop where
  depth : depthIn rows row.id ≤ maxDepth
  alone : ∀ other ∈ rows, other.IsActive → other.id ≠ row.id →
    lower other.name ≠ lower row.name ∧ other.librarySlug ≠ row.librarySlug

/-- The rows after a run beside those before it -/
def Additive (lower : String → String) (seeds : List SeedCategory) (rows rows' : List CategoryRow) : Prop :=
  ∃ kept created, rows' = kept ++ created ∧ List.Forall₂ Kept rows kept ∧
    (created.map (·.name)).Sublist (seeds.map (·.name)) ∧ ∀ row ∈ created, row.IsActive ∧ Created lower rows' row

theorem exists_kept (h : List.Forall₂ Kept rows rows') (hmem : row' ∈ rows') : ∃ row ∈ rows, Kept row row' := by
  induction h with
  | nil => exact absurd hmem List.not_mem_nil
  | cons hrow _ ih =>
    rcases List.mem_cons.mp hmem with rfl | hrest
    · exact ⟨_, List.mem_cons_self, hrow⟩
    · obtain ⟨row, hrow, hkept⟩ := ih hrest
      exact ⟨row, List.mem_cons_of_mem _ hrow, hkept⟩

theorem exists_kept_left (h : List.Forall₂ Kept rows rows') (hmem : row ∈ rows) : ∃ row' ∈ rows', Kept row row' := by
  induction h with
  | nil => exact absurd hmem List.not_mem_nil
  | cons hrow _ ih =>
    rcases List.mem_cons.mp hmem with rfl | hrest
    · exact ⟨_, List.mem_cons_self, hrow⟩
    · obtain ⟨row', hrow', hkept⟩ := ih hrest
      exact ⟨row', List.mem_cons_of_mem _ hrow', hkept⟩

theorem depthIn_created (hready : Ready newId (seed :: seeds) state)
    (hparent : parentOf state.resolved seed = some parentId) (hfree : ¬Blocked lower state.rows seed parentId) :
    depthIn (state.rows ++ [newRow seed (newId seed.name) parentId]) (newId seed.name) ≤ maxDepth := by
  have hself := hready.fresh seed List.mem_cons_self
  have hown : parentId ≠ some (newId seed.name) := by
    rintro rfl
    obtain ⟨old, hmem, hold⟩ := List.mem_map.mp (parentOf_mem hready hparent _ rfl)
    exact (hself old hmem).1 hold
  have hdepth := @depthIn_new state.rows (newRow seed (newId seed.name) parentId) (fun r hr => (hself r hr).1)
    (fun r hr => (hself r hr).2) hown
  refine hdepth.trans_le ?_
  cases hcase : parentId with
  | none => exact Nat.le_of_ble_eq_true rfl
  | some parent =>
    have hroom : ¬maxDepth ≤ depthIn state.rows parent := fun hle =>
      hfree (.inr (.inr (.inr ⟨parent, hcase, hle⟩)))
    show 1 + depthIn state.rows parent ≤ maxDepth
    omega

/-- A run keeps every row, up to the values it fills, and adds active rows for seeds. -/
theorem additive_run (hready : Ready newId seeds state) :
    Additive lower seeds state.rows (seeds.foldl (planStep lower true newId) state).rows := by
  induction seeds generalizing state with
  | nil =>
    exact ⟨state.rows, [], (List.append_nil _).symm, List.forall₂_same.mpr fun row _ => Kept.refl row,
      List.Sublist.refl _, fun row hrow => absurd hrow List.not_mem_nil⟩
  | cons seed seeds ih =>
    have hready' : Ready newId seeds (planStep lower true newId state seed) := ready_planStep hready
    have hevolves := @evolves_run lower _ _ _ hready'
    obtain ⟨kept, created, hrows, hkept, hnames, hcreated⟩ := ih hready'
    rw [List.foldl_cons]
    have hturn := planStep_turn lower newId true state seed
    generalize planStep lower true newId state seed = next at hturn hevolves hrows hkept hcreated ⊢
    cases hturn with
    | missing => exact ⟨kept, created, hrows, hkept, hnames.cons _, hcreated⟩
    | skipped => exact ⟨kept, created, hrows, hkept, hnames.cons _, hcreated⟩
    | found parentId existing _ hanswers =>
      have hfilled : List.Forall₂ Kept state.rows (rowsFound true state.rows existing seed) :=
        kept_rowsFound true hready.ids (mem_of_answers hanswers).1
      exact ⟨kept, created, hrows, forall₂_kept_trans hfilled hkept, hnames.cons _, hcreated⟩
    | created parentId hparent hanswers hfree =>
      obtain ⟨keptOld, keptNew, rfl, hold, hnew⟩ := exists_of_forall₂_append hkept
      obtain ⟨row', hrow', rfl⟩ : ∃ row', Kept (newRow seed (newId seed.name) parentId) row' ∧ keptNew = [row'] := by
        cases hnew with
        | cons hrow' hrest =>
          cases hrest with
          | nil => exact ⟨_, hrow', rfl⟩
      have hself := hready.fresh seed List.mem_cons_self
      have hcolumns : row'.id = newId seed.name ∧ row'.name = seed.name ∧ row'.archivedAt = none ∧
          row'.librarySlug = seed.librarySlug := by
        rw [hrow'.columns, hrow'.slug]
        exact ⟨rfl, rfl, rfl, rfl⟩
      obtain ⟨hid, hname, hactive, hslug⟩ := hcolumns
      rw [hrows] at hevolves hcreated ⊢
      refine ⟨keptOld, row' :: created, by rw [List.append_assoc]; rfl, hold, ?_, fun row hrow => ?_⟩
      · rw [List.map_cons, List.map_cons, hname]
        exact hnames.cons_cons _
      rcases List.mem_cons.mp hrow with rfl | hrow
      · refine ⟨hactive, ?_, fun other hother hon hne => ?_⟩
        · have hmem : newId seed.name ∈ (state.rows ++ [newRow seed (newId seed.name) parentId]).map (·.id) := by
            rw [List.map_append]
            exact List.mem_append_right _ (List.mem_singleton_self _)
          rw [hid]
          exact (hevolves.depth _ hmem).trans_le (depthIn_created hready hparent hfree)
        · rw [hname, hslug]
          rcases List.mem_append.mp hother with hother | hother
          · rcases List.mem_append.mp hother with hother | hother
            · obtain ⟨old, hmem, hkeptOld⟩ := exists_kept hold hother
              rw [CategoryRow.IsActive, hkeptOld.columns] at hon
              rw [hkeptOld.columns, hkeptOld.slug]
              exact ⟨fun heq => hfree (.inr (.inl ⟨old, hmem, hon, heq⟩)),
                fun heq => hfree (.inr (.inr (.inl ⟨old, hmem, hon, heq⟩)))⟩
            · exact absurd (List.mem_singleton.mp hother ▸ rfl) hne
          · have halone := (hcreated other hother).2.alone row (by simp) hactive (Ne.symm hne)
            rw [hname, hslug] at halone
            exact ⟨Ne.symm halone.1, Ne.symm halone.2⟩
      · exact hcreated row hrow

end Runs

end StockManager.CategorySeed
