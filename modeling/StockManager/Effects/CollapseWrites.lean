import StockManager.Effects.KicadRows

/-! # What the symbol-collapse job writes -/

namespace StockManager.Kicad.SymbolCollapse

variable {db : Estate} {workspaceId partId : Uuid} {rows candidates outcomes : List CollapseCandidate}
  {row : CollapseCandidate}
variable {configs : List PartEda} {config : PartEda} {partIds : List Uuid}
  {expected : List (Uuid × Uuid)}

def configOf (configs : List PartEda) (workspaceId partId : Uuid) : Option PartEda :=
  configs.find? fun e => e.partId = partId ∧ e.workspaceId = workspaceId

theorem configOf_eq_some (h : (configs.map (·.partId)).Nodup) :
    configOf configs workspaceId partId = some config ↔
      config ∈ configs ∧ config.partId = partId ∧ config.workspaceId = workspaceId := by
  constructor
  · intro hfound
    have hwhere : config.partId = partId ∧ config.workspaceId = workspaceId := by
      simpa using List.find?_some hfound
    exact ⟨List.mem_of_find?_eq_some hfound, hwhere⟩
  · rintro ⟨hmem, hwhere⟩
    have hsome : (configOf configs workspaceId partId).isSome = true :=
      List.find?_isSome.mpr ⟨config, hmem, decide_eq_true hwhere⟩
    obtain ⟨found, hfound⟩ := Option.isSome_iff_exists.mp hsome
    have hfoundId : found.partId = partId ∧ found.workspaceId = workspaceId := by
      simpa using List.find?_some hfound
    rw [hfound, List.inj_on_of_nodup_map h (List.mem_of_find?_eq_some hfound) hmem
      (hfoundId.1.trans hwhere.1.symm)]

theorem mem_chunks {items : List Uuid} {size : Nat} (hsize : 0 < size) {item : Uuid} :
    (∃ chunk ∈ chunks items size, item ∈ chunk) ↔ item ∈ items := by
  constructor
  · rintro ⟨chunk, hchunk, hitem⟩
    obtain ⟨i, -, rfl⟩ := List.mem_map.mp hchunk
    exact List.mem_of_mem_drop (List.mem_of_mem_take hitem)
  · intro hitem
    obtain ⟨k, hk, rfl⟩ := List.mem_iff_getElem.mp hitem
    have hmod := Nat.mod_lt k hsize
    have hdiv := Nat.div_add_mod k size
    refine ⟨(items.drop (k / size * size)).take size, List.mem_map.mpr ⟨k / size, ?_, rfl⟩, ?_⟩
    · rw [List.mem_range, Nat.div_lt_iff_lt_mul hsize]
      have hround := Nat.div_add_mod (items.length + size - 1) size
      have hrest := Nat.mod_lt (items.length + size - 1) hsize
      rw [Nat.mul_comm] at hround
      omega
    · have hle : k / size * size ≤ k := Nat.div_mul_le_self k size
      refine List.mem_iff_getElem.mpr ⟨k - k / size * size, ?_, ?_⟩
      · rw [List.length_take, List.length_drop]
        rw [Nat.mul_comm] at hdiv
        omega
      · rw [List.getElem_take, List.getElem_drop]
        congr 1
        omega

theorem mem_configsFor :
    config ∈ configsFor db workspaceId partIds ↔
      config ∈ db.partEda ∧ config.workspaceId = workspaceId ∧ config.partId ∈ partIds := by
  have hchunks := @mem_chunks partIds inChunk (by decide) config.partId
  rw [configsFor, List.mem_flatMap, ← hchunks]
  simp only [List.mem_filter, decide_eq_true_eq]
  constructor
  · rintro ⟨chunk, hchunk, hmem, hws, hpart⟩
    exact ⟨hmem, hws, chunk, hchunk, hpart⟩
  · rintro ⟨hmem, hws, chunk, hchunk, hpart⟩
    exact ⟨chunk, hchunk, hmem, hws, hpart⟩

def configsDict (configs : List PartEda) : List (Uuid × PartEda) :=
  configs.foldl (fun d config => Dict.put config.partId config d) []

theorem find_configsDict (h : (db.partEda.map (·.partId)).Nodup) (hpart : partId ∈ partIds) :
    Dict.find partId (configsDict (configsFor db workspaceId partIds)) =
      configOf db.partEda workspaceId partId := by
  have hfold : configsDict (configsFor db workspaceId partIds) =
      ((configsFor db workspaceId partIds).map fun config => (config.partId, config)).foldl
        (fun d item => Dict.put item.1 item.2 d) [] := by
    rw [configsDict, List.foldl_map]
  rw [hfold, Dict.find_foldl_put, ← List.map_reverse, Dict.find_map_key, Option.map_id', Dict.find,
    Option.or_none]
  refine Option.ext fun config => ?_
  rw [configOf_eq_some h]
  constructor
  · intro hfound
    have hmem := mem_configsFor.mp (List.mem_reverse.mp (List.mem_of_find?_eq_some hfound))
    have hid : config.partId = partId := by simpa using List.find?_some hfound
    exact ⟨hmem.1, hid, hmem.2.1⟩
  · rintro ⟨hmem, rfl, hws⟩
    have hin : config ∈ (configsFor db workspaceId partIds).reverse :=
      List.mem_reverse.mpr (mem_configsFor.mpr ⟨hmem, hws, hpart⟩)
    have hsome : ((configsFor db workspaceId partIds).reverse.find? (·.partId = config.partId)).isSome = true :=
      List.find?_isSome.mpr ⟨config, hin, decide_eq_true rfl⟩
    obtain ⟨found, hfound⟩ := Option.isSome_iff_exists.mp hsome
    have hfoundMem := mem_configsFor.mp (List.mem_reverse.mp (List.mem_of_find?_eq_some hfound))
    have hid : found.partId = config.partId := by simpa using List.find?_some hfound
    rw [hfound, List.inj_on_of_nodup_map h hfoundMem.1 hmem hid]

def clearedParts (outcomes : List CollapseCandidate) : List (Uuid × Uuid) :=
  (outcomes.filter (·.action = .cleared)).map fun row => (row.workspaceId, row.partId)

def clearAll (cleared : List (Uuid × Uuid)) (config : PartEda) : PartEda :=
  if (config.workspaceId, config.partId) ∈ cleared then { config with symbolId := none } else config

def clearedDb (db : Estate) (outcomes : List CollapseCandidate) : Estate :=
  { db with partEda := db.partEda.map (clearAll (clearedParts outcomes)) }

theorem clearAll_key (cleared : List (Uuid × Uuid)) (config : PartEda) :
    (clearAll cleared config).partId = config.partId ∧
      (clearAll cleared config).workspaceId = config.workspaceId := by
  unfold clearAll
  split <;> exact ⟨rfl, rfl⟩

theorem configOf_clearAll (configs : List PartEda) (cleared : List (Uuid × Uuid)) :
    configOf (configs.map (clearAll cleared)) workspaceId partId =
      (configOf configs workspaceId partId).map (clearAll cleared) := by
  rw [configOf, configOf, List.find?_map]
  refine congrArg (Option.map _) (congrArg (fun p => List.find? p configs) (funext fun config => ?_))
  simp [clearAll_key]

theorem nodup_clearAll (h : (configs.map (·.partId)).Nodup)
    (cleared : List (Uuid × Uuid)) : ((configs.map (clearAll cleared)).map (·.partId)).Nodup := by
  have hkeys : (configs.map (clearAll cleared)).map (·.partId) = configs.map (·.partId) := by
    rw [List.map_map]
    exact List.map_congr_left fun config _ => (clearAll_key cleared config).1
  rw [hkeys]
  exact h

theorem clearAll_nil (config : PartEda) : clearAll [] config = config := if_neg List.not_mem_nil

theorem clearSymbol_clearAll (cleared : List (Uuid × Uuid)) (config : PartEda) :
    clearSymbol workspaceId partId (clearAll cleared config) =
      clearAll (cleared ++ [(workspaceId, partId)]) config := by
  obtain ⟨hpart, hws⟩ := clearAll_key cleared config
  rw [clearSymbol, hpart, hws]
  by_cases hown : config.workspaceId = workspaceId ∧ config.partId = partId
  · have hmem : (config.workspaceId, config.partId) ∈ cleared ++ [(workspaceId, partId)] := by
      rw [hown.1, hown.2]
      exact List.mem_append_right _ (List.mem_singleton_self _)
    rw [if_pos hown, clearAll, clearAll, if_pos hmem]
    split <;> rfl
  · have hiff : (config.workspaceId, config.partId) ∈ cleared ++ [(workspaceId, partId)] ↔
        (config.workspaceId, config.partId) ∈ cleared := by
      rw [List.mem_append, List.mem_singleton, Prod.mk.injEq]
      exact ⟨fun h => h.resolve_right hown, .inl⟩
    rw [if_neg hown, clearAll, clearAll]
    simp only [hiff]

theorem clearedParts_append (a b : List CollapseCandidate) :
    clearedParts (a ++ b) = clearedParts a ++ clearedParts b := by
  rw [clearedParts, List.filter_append, List.map_append]
  rfl

def stamp (configs : List PartEda) (row : CollapseCandidate) : CollapseCandidate :=
  if (configOf configs row.workspaceId row.partId).bind (·.symbolId) = some row.symbolId then
    { row with action := .cleared }
  else { row with action := .skipped, detail := reasonChanged }

theorem clearedParts_stamp (configs : List PartEda) (row : CollapseCandidate) :
    clearedParts [stamp configs row] =
      if (configOf configs row.workspaceId row.partId).bind (·.symbolId) = some row.symbolId then
        [(row.workspaceId, row.partId)] else [] := by
  unfold stamp
  split <;> rfl

theorem applyRow_eq {state : ApplyState} (hws : row.workspaceId = workspaceId)
    (hconfig : Dict.find row.partId state.configs = configOf db.partEda workspaceId row.partId)
    (hexpected : Dict.find row.partId expected = some row.symbolId)
    (hdb : state.db = clearedDb db state.outcomes) :
    (applyRow workspaceId expected state row).db =
        clearedDb db (applyRow workspaceId expected state row).outcomes ∧
      (applyRow workspaceId expected state row).outcomes = state.outcomes ++ [stamp db.partEda row] ∧
      ∀ k, k ≠ row.partId →
        Dict.find k (applyRow workspaceId expected state row).configs = Dict.find k state.configs := by
  subst hws
  have hkept : ∀ skipped : CollapseCandidate, skipped.action = .skipped →
      state.db = clearedDb db (state.outcomes ++ [skipped]) := by
    intro skipped hskipped
    have hnone : clearedParts [skipped] = [] := by
      rw [clearedParts, List.filter_cons_of_neg (by simp [hskipped])]
      rfl
    rw [hdb, clearedDb, clearedDb, clearedParts_append, hnone, List.append_nil]
  rw [applyRow, hconfig, stamp]
  cases hfound : configOf db.partEda row.workspaceId row.partId with
  | none => exact ⟨hkept _ rfl, rfl, fun _ _ => rfl⟩
  | some config =>
    rw [Option.bind_some]
    simp only [hexpected, ne_eq, ite_not]
    split
    next hsame =>
      refine ⟨?_, rfl, fun k hk => Dict.find_upsert_of_ne (Ne.symm hk) _ _ _⟩
      have hone : clearedParts [{ row with action := .cleared }] = [(row.workspaceId, row.partId)] := rfl
      have hmap : (db.partEda.map (clearAll (clearedParts state.outcomes))).map
          (clearSymbol row.workspaceId row.partId) =
            db.partEda.map (clearAll (clearedParts state.outcomes ++ [(row.workspaceId, row.partId)])) := by
        rw [List.map_map]
        exact List.map_congr_left fun config _ => clearSymbol_clearAll _ _
      rw [hdb, clearedDb, clearedDb, clearedParts_append, hone, ← hmap]
    next => exact ⟨hkept _ rfl, rfl, fun _ _ => rfl⟩

theorem applyRows_eq (hws : ∀ row ∈ rows, row.workspaceId = workspaceId)
    (hnodup : (rows.map (·.partId)).Nodup)
    (hexpected : ∀ row ∈ rows, Dict.find row.partId expected = some row.symbolId) (state : ApplyState)
    (hconfigs : ∀ row ∈ rows, Dict.find row.partId state.configs = configOf db.partEda workspaceId row.partId)
    (hdb : state.db = clearedDb db state.outcomes) :
    (rows.foldl (applyRow workspaceId expected) state).db =
        clearedDb db (rows.foldl (applyRow workspaceId expected) state).outcomes ∧
      (rows.foldl (applyRow workspaceId expected) state).outcomes =
        state.outcomes ++ rows.map (stamp db.partEda) := by
  induction rows generalizing state with
  | nil => exact ⟨hdb, (List.append_nil _).symm⟩
  | cons row rows ih =>
    rw [List.forall_mem_cons] at hws hexpected hconfigs
    rw [List.map_cons, List.nodup_cons] at hnodup
    obtain ⟨hdb', houtcomes, hkept⟩ := applyRow_eq hws.1 hconfigs.1 hexpected.1 hdb
    have hconfigs' : ∀ r ∈ rows, Dict.find r.partId (applyRow workspaceId expected state row).configs =
        configOf db.partEda workspaceId r.partId := by
      intro r hr
      rw [hkept r.partId fun heq => hnodup.1 (heq ▸ List.mem_map_of_mem hr), hconfigs.2 r hr]
    obtain ⟨hrest, hall⟩ := ih hws.2 hnodup.2 hexpected.2 _ hconfigs' hdb'
    rw [List.foldl_cons]
    refine ⟨hrest, ?_⟩
    rw [hall, houtcomes, List.map_cons, List.append_assoc]
    rfl

theorem find_expected (hnodup : (rows.map (·.partId)).Nodup) :
    ∀ row ∈ rows, Dict.find row.partId (rows.foldl (fun d row => Dict.put row.partId row.symbolId d) []) =
      some row.symbolId := by
  intro row hrow
  have hfold := Dict.foldl_put_of_nodup (fun row : CollapseCandidate => row.partId) (fun row => row.symbolId) hnodup
  rw [hfold, ← Dict.mem_iff_find]
  · exact List.mem_map.mpr ⟨row, hrow, rfl⟩
  · rw [Dict.keys, List.map_map]
    exact hnodup

theorem clearedDb_nil (db : Estate) : clearedDb db [] = db := by
  have hmap : db.partEda.map (clearAll (clearedParts [])) = db.partEda :=
    (List.map_congr_left fun config _ => clearAll_nil config).trans (List.map_id _)
  rw [clearedDb, hmap]

theorem applyOneWorkspace_eq (hdb : (db.partEda.map (·.partId)).Nodup)
    (hws : ∀ row ∈ rows, row.workspaceId = workspaceId) (hnodup : (rows.map (·.partId)).Nodup) :
    applyOneWorkspace db workspaceId rows =
      (clearedDb db (rows.map (stamp db.partEda)), rows.map (stamp db.partEda)) := by
  have hconfigs : ∀ row ∈ rows,
      Dict.find row.partId (configsDict (configsFor db workspaceId (rows.map (·.partId)))) =
        configOf db.partEda workspaceId row.partId :=
    fun row hrow => find_configsDict hdb (List.mem_map_of_mem hrow)
  obtain ⟨hstate, houtcomes⟩ := applyRows_eq hws hnodup (find_expected hnodup)
    ⟨db, configsDict (configsFor db workspaceId (rows.map (·.partId))), []⟩ hconfigs (clearedDb_nil db).symm
  rw [List.nil_append] at houtcomes
  rw [houtcomes] at hstate
  exact Prod.ext hstate houtcomes

theorem mem_clearedParts_stamp {item : Uuid × Uuid} :
    item ∈ clearedParts (rows.map (stamp configs)) ↔
      ∃ row ∈ rows, (configOf configs row.workspaceId row.partId).bind (·.symbolId) = some row.symbolId ∧
        (row.workspaceId, row.partId) = item := by
  induction rows with
  | nil => simp [clearedParts]
  | cons row rows ih =>
    have hcons : (row :: rows).map (stamp configs) = [stamp configs row] ++ rows.map (stamp configs) := rfl
    rw [hcons, clearedParts_append, List.mem_append, ih, clearedParts_stamp]
    simp only [List.mem_cons, exists_eq_or_imp]
    refine or_congr ?_ Iff.rfl
    split
    next h => simp [h, eq_comm]
    next h => simp [h]

theorem clearedDb_clearedDb (db : Estate) (a b : List CollapseCandidate) :
    clearedDb (clearedDb db a) b = clearedDb db (a ++ b) := by
  have hmap : (db.partEda.map (clearAll (clearedParts a))).map (clearAll (clearedParts b)) =
      db.partEda.map (clearAll (clearedParts (a ++ b))) := by
    rw [List.map_map, clearedParts_append]
    refine List.map_congr_left fun config _ => ?_
    obtain ⟨hpart, hws⟩ := clearAll_key (clearedParts a) config
    rw [Function.comp_apply, clearAll, hpart, hws, clearAll, clearAll]
    simp only [List.mem_append]
    split <;> split <;> simp_all
  simp only [clearedDb, hmap]

theorem stamp_clearAll {cleared : List (Uuid × Uuid)}
    (h : ∀ item ∈ cleared, item.1 ≠ row.workspaceId) : stamp (configs.map (clearAll cleared)) row = stamp configs row := by
  have hsame : configOf (configs.map (clearAll cleared)) row.workspaceId row.partId =
      configOf configs row.workspaceId row.partId := by
    rw [configOf_clearAll]
    cases hfound : configOf configs row.workspaceId row.partId with
    | none => rfl
    | some config =>
      have hwhere : config.partId = row.partId ∧ config.workspaceId = row.workspaceId := by
        simpa using List.find?_some hfound
      rw [Option.map_some, clearAll, if_neg fun hmem => h _ hmem hwhere.2]
  rw [stamp, stamp, hsame]

theorem applyGroups_eq (hdb : (db.partEda.map (·.partId)).Nodup) {groups : List (Uuid × List CollapseCandidate)}
    (hkeys : (Dict.keys groups).Nodup)
    (hgroups : ∀ group ∈ groups, (∀ row ∈ group.2, row.workspaceId = group.1) ∧
      (group.2.map (·.partId)).Nodup ∧ ∃ ws ∈ db.workspaces, ws.id = group.1)
    (hfresh : ∀ item ∈ clearedParts outcomes, item.1 ∉ Dict.keys groups) :
    groups.foldl applyGroup (clearedDb db outcomes, outcomes) =
      (clearedDb db (outcomes ++ groups.flatMap fun group => group.2.map (stamp db.partEda)),
        outcomes ++ groups.flatMap fun group => group.2.map (stamp db.partEda)) := by
  induction groups generalizing outcomes with
  | nil => simp
  | cons group groups ih =>
    rw [List.forall_mem_cons] at hgroups
    obtain ⟨⟨hws, hnodup, ws, hmem, hid⟩, hgroups⟩ := hgroups
    obtain ⟨hnot, hkeys⟩ := List.nodup_cons.mp hkeys
    have hstamps : group.2.map (stamp (clearedDb db outcomes).partEda) = group.2.map (stamp db.partEda) := by
      refine List.map_congr_left fun row hrow => stamp_clearAll fun item hitem heq => hfresh item hitem ?_
      rw [heq, hws row hrow]
      exact List.mem_cons_self
    have hfound : ∃ found, (clearedDb db outcomes).workspaces.find? (·.id = group.1) = some found ∧
        found.id = group.1 := by
      obtain ⟨found, hfound⟩ := Option.isSome_iff_exists.mp
        (List.find?_isSome.mpr ⟨ws, hmem, decide_eq_true hid⟩ :
          (db.workspaces.find? fun w => w.id = group.1).isSome = true)
      exact ⟨found, hfound, by simpa using List.find?_some hfound⟩
    obtain ⟨found, hfound, hfoundId⟩ := hfound
    have happlied := @applyOneWorkspace_eq (clearedDb db outcomes) _ _ (nodup_clearAll hdb (clearedParts outcomes))
      (fun row hrow => (hws row hrow).trans hfoundId.symm) hnodup
    rw [hstamps, clearedDb_clearedDb] at happlied
    rw [List.foldl_cons, applyGroup, hfound]
    simp only [happlied]
    rw [ih hkeys hgroups, List.flatMap_cons, List.append_assoc]
    intro item hitem hin
    rw [clearedParts_append, List.mem_append] at hitem
    rcases hitem with hold | hnew
    · exact hfresh item hold (List.mem_cons_of_mem _ hin)
    · obtain ⟨row, hrow, -, rfl⟩ := mem_clearedParts_stamp.mp hnew
      exact hnot ((hws row hrow) ▸ hin)

/-- The job clears what the stamped candidates name, and reports them in some order. -/
theorem apply_eq (hdb : (db.partEda.map (·.partId)).Nodup) (hnodup : (candidates.map (·.partId)).Nodup)
    (hworkspaces : ∀ row ∈ candidates, ∃ ws ∈ db.workspaces, ws.id = row.workspaceId) :
    ∃ outcomes, outcomes.Perm (candidates.map (stamp db.partEda)) ∧
      apply db candidates = (clearedDb db outcomes, outcomes) := by
  have hkeys : (Dict.keys (Dict.gather (·.workspaceId) id candidates)).Nodup :=
    Dict.nodup_keys_collect (by simp [Dict.keys]) candidates
  have hgroup : ∀ group ∈ Dict.gather (·.workspaceId) id candidates,
      group.2 = candidates.filter (·.workspaceId = group.1) := by
    intro group hmem
    have hfind := Dict.getD_find_gather (·.workspaceId) id candidates group.1
    rw [(Dict.mem_iff_find hkeys).mp hmem, Option.getD_some, List.map_id] at hfind
    exact hfind
  refine ⟨(Dict.gather (·.workspaceId) id candidates).flatMap fun group => group.2.map (stamp db.partEda), ?_, ?_⟩
  · have hpairs := (Dict.pairs_gather (·.workspaceId) id candidates).map fun item => stamp db.partEda item.2
    rw [List.map_map, Dict.pairs, List.map_flatMap] at hpairs
    simp only [List.map_map] at hpairs
    exact hpairs
  · have hall := @applyGroups_eq db [] hdb _ hkeys (fun group hmem => ?_) fun item hitem =>
      absurd hitem List.not_mem_nil
    · rw [clearedDb_nil, List.nil_append] at hall
      exact hall
    · refine ⟨fun row hrow => ?_, ?_, ?_⟩
      · rw [hgroup group hmem] at hrow
        exact of_decide_eq_true (List.mem_filter.mp hrow).2
      · rw [hgroup group hmem]
        exact hnodup.sublist (List.filter_sublist.map _)
      · have hkey : group.1 ∈ Dict.keys (Dict.gather (·.workspaceId) id candidates) := List.mem_map_of_mem hmem
        obtain ⟨row, hrow, hws⟩ := (Dict.mem_keys_collect.mp hkey).resolve_left List.not_mem_nil
        obtain ⟨ws, hmem, hid⟩ := hworkspaces row hrow
        exact ⟨ws, hmem, hid.trans hws⟩

end StockManager.Kicad.SymbolCollapse
