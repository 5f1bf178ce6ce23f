import StockManager.Effects.CollapseWrites

/-! # Collapsing keeps every part in the library -/

namespace StockManager.Kicad.SymbolCollapse

variable {db db' : Estate} {workspaceId partId : Uuid} {candidates outcomes : List CollapseCandidate}
  {row : CollapseCandidate} {part : Part} {baseUrl : String}
variable {config : PartEda} {symbol : EdaEntry} {found : CandidateRow}

def activePart (db : Db) (workspaceId partId : Uuid) : Option Part :=
  (db.parts.filter fun part => part.workspaceId = workspaceId ∧ part.archivedAt = none).find? (·.id = partId)

def servedSymbol (db : Db) (workspaceId partId : Uuid) : Option String :=
  (activePart db workspaceId partId).bind fun part => symbolIdStr (partRow db part)

theorem partDetail_activePart (db : Db) :
    partDetail baseUrl db workspaceId partId =
      (activePart db workspaceId partId).bind fun part => documentOf baseUrl db workspaceId (partRow db part) := by
  rw [partDetail, rowsStmt, List.find?_map, Option.bind_map]
  rfl

theorem map_partDetail (db : Db) :
    (partDetail baseUrl db workspaceId partId).map (·.symbolIdStr) = servedSymbol db workspaceId partId := by
  rw [partDetail_activePart, servedSymbol]
  cases activePart db workspaceId partId with
  | none => rfl
  | some part =>
    rw [Option.bind_some, Option.bind_some, documentOf_eq, document, Option.map_map]
    cases symbolIdStr (partRow db part) <;> rfl

theorem isSome_partDetail (db : Db) :
    (partDetail baseUrl db workspaceId partId).isSome = (servedSymbol db workspaceId partId).isSome := by
  rw [← @map_partDetail _ _ baseUrl, Option.isSome_map]

/-- What the selection knows of a candidate -/
structure Selected (db : Estate) (row : CollapseCandidate) (part : Part) (config : PartEda) (symbol : EdaEntry)
    (category : PartCategory) : Prop where
  mem : part ∈ db.parts
  active : part.archivedAt = none
  partId : row.partId = part.id
  workspaceId : row.workspaceId = part.workspaceId
  workspace : ∃ ws ∈ db.workspaces, ws.id = row.workspaceId
  configFound : configOf db.partEda part.workspaceId part.id = some config
  symbolFound : joinEntry db.symbols part.workspaceId config.symbolId = some symbol
  symbolId : symbol.id = row.symbolId
  vendor : symbol.source ≠ "manual"
  categoryFound : joinCategory db.toDb part.workspaceId part.categoryId = some category
  after : category.defaultSymbolRef = some row.after
  usable : row.after ≠ ""
  before : row.before = entryRef symbol.name
    ((joinCategory db.toDb part.workspaceId symbol.categoryId).map (·.librarySlug))

theorem joinRow_eq_some (h : joinRow db part = some found) :
    found.part = part ∧ found.workspace ∈ db.workspaces ∧ found.workspace.id = part.workspaceId ∧
      ∃ config, configOf db.partEda part.workspaceId part.id = some config ∧
        joinEntry db.symbols part.workspaceId config.symbolId = some found.symbol ∧
        joinCategory db.toDb part.workspaceId part.categoryId = some found.category ∧
        found.symbolCategorySlug =
          (joinCategory db.toDb part.workspaceId found.symbol.categoryId).map (·.librarySlug) := by
  obtain ⟨workspace, hworkspace, h⟩ := Option.bind_eq_some_iff.mp h
  obtain ⟨config, hconfig, h⟩ := Option.bind_eq_some_iff.mp h
  obtain ⟨symbol, hsymbol, h⟩ := Option.bind_eq_some_iff.mp h
  obtain ⟨category, hcategory, h⟩ := Option.bind_eq_some_iff.mp h
  obtain rfl := Option.some.inj h
  exact ⟨rfl, List.mem_of_find?_eq_some hworkspace, by simpa using List.find?_some hworkspace, config, hconfig,
    hsymbol, hcategory, rfl⟩

theorem mem_candidates {collate : String → String → Bool} {scope : Option Uuid}
    (h : collapseCandidates collate db scope = some candidates) :
    row ∈ candidates ↔ ∃ part ∈ db.parts, ∃ found, joinRow db part = some found ∧ isCandidate found = true ∧
      scope.all (found.part.workspaceId = ·) = true ∧ rowToCandidate found = row := by
  rw [collapseCandidates] at h
  split at h
  next =>
    obtain rfl := Option.some.inj h
    rw [List.mem_map]
    constructor
    · rintro ⟨found, hfound, rfl⟩
      have hmem := (List.mergeSort_perm _ _).mem_iff.mp hfound
      obtain ⟨hmem, hscope⟩ := List.mem_filter.mp hmem
      obtain ⟨hmem, hwhere⟩ := List.mem_filter.mp hmem
      obtain ⟨part, hpart, hjoin⟩ := List.mem_filterMap.mp hmem
      exact ⟨part, hpart, found, hjoin, hwhere, hscope, rfl⟩
    · rintro ⟨part, hpart, found, hjoin, hwhere, hscope, rfl⟩
      refine ⟨found, (List.mergeSort_perm _ _).mem_iff.mpr ?_, rfl⟩
      exact List.mem_filter.mpr
        ⟨List.mem_filter.mpr ⟨List.mem_filterMap.mpr ⟨part, hpart, hjoin⟩, hwhere⟩, hscope⟩
  next => exact absurd h (Option.some_ne_none _).symm

theorem selected_of_join (hpart : part ∈ db.parts) (hjoin : joinRow db part = some found)
    (hwhere : isCandidate found = true) :
    ∃ config, Selected db (rowToCandidate found) part config found.symbol found.category := by
  obtain ⟨rfl, hworkspace, hid, config, hconfig, hsymbol, hcategory, hslug⟩ := joinRow_eq_some hjoin
  rw [isCandidate, decide_eq_true_eq] at hwhere
  obtain ⟨hactive, hvendor, husable⟩ := hwhere
  have hafter : found.category.defaultSymbolRef = some (rowToCandidate found).after := by
    cases hdefault : found.category.defaultSymbolRef with
    | none =>
      rw [hdefault] at husable
      exact absurd rfl husable
    | some text => rw [rowToCandidate, hdefault, Option.getD_some]
  exact ⟨config, hpart, hactive, rfl, hid, ⟨found.workspace, hworkspace, rfl⟩, hconfig, hsymbol, rfl, hvendor,
    hcategory, hafter, husable, congrArg (entryRef found.symbol.name) hslug⟩

theorem nodup_candidates {collate : String → String → Bool} {scope : Option Uuid}
    (hdb : (db.parts.map (·.id)).Nodup) (h : collapseCandidates collate db scope = some candidates) :
    (candidates.map (·.partId)).Nodup := by
  rw [collapseCandidates] at h
  split at h
  next =>
    obtain rfl := Option.some.inj h
    rw [List.map_map]
    refine ((List.mergeSort_perm _ _).map _).nodup_iff.mpr ?_
    have hrows : ((db.parts.filterMap (joinRow db)).map fun found => found.part.id).Nodup :=
      nodup_filterMap (fun part found hjoin => by rw [(joinRow_eq_some hjoin).1]) hdb
    exact hrows.sublist ((List.filter_sublist.trans List.filter_sublist).map _)
  next => exact absurd h (Option.some_ne_none _).symm

theorem symbolIdStr_hosted (hexternal : config.symbolRefExternal = none)
    (hconfig : configOf db.partEda part.workspaceId part.id = some config)
    (hsymbol : joinEntry db.symbols part.workspaceId config.symbolId = some symbol) :
    symbolIdStr (partRow db.toDb part) = some (entryRef symbol.name
      ((joinCategory db.toDb part.workspaceId symbol.categoryId).map (·.librarySlug))) := by
  have hrow : (partRow db.toDb part).config = some config := hconfig
  have hjoined : (partRow db.toDb part).symbol = some symbol := by
    show joinEntry db.symbols part.workspaceId ((configOf db.partEda part.workspaceId part.id).bind _) = _
    rw [hconfig]
    exact hsymbol
  have hslug : (partRow db.toDb part).symbolCategorySlug =
      (joinCategory db.toDb part.workspaceId symbol.categoryId).map (·.librarySlug) := by
    show (joinCategory db.toDb part.workspaceId ((partRow db.toDb part).symbol.bind _)).map _ = _
    rw [hjoined]
    rfl
  rw [symbolIdStr, hrow, hjoined, hslug, Option.bind_some, hexternal]
  rfl

theorem symbolIdStr_default {category : PartCategory} {text : String}
    (hexternal : config.symbolRefExternal = none) (hnone : config.symbolId = none)
    (hconfig : configOf db.partEda part.workspaceId part.id = some config)
    (hcategory : joinCategory db.toDb part.workspaceId part.categoryId = some category)
    (hdefault : category.defaultSymbolRef = some text) (hne : text ≠ "") :
    symbolIdStr (partRow db.toDb part) = some text := by
  have hrow : (partRow db.toDb part).config = some config := hconfig
  have hjoined : (partRow db.toDb part).symbol = none := by
    show joinEntry db.symbols part.workspaceId ((configOf db.partEda part.workspaceId part.id).bind _) = _
    rw [hconfig, Option.bind_some, hnone, joinEntry, List.find?_eq_none]
    simp
  have hcategory : (partRow db.toDb part).category = some category := hcategory
  rw [symbolIdStr, hrow, hjoined, hcategory, Option.bind_some, Option.bind_some, hexternal, hdefault]
  show (truthy (some text)) = some text
  exact truthy_eq_some.mpr ⟨rfl, hne⟩

theorem activePart_self (hdb : (db.parts.map (·.id)).Nodup) (hpart : part ∈ db.parts)
    (hactive : part.archivedAt = none) : activePart db.toDb part.workspaceId part.id = some part := by
  have hmem : part ∈ db.parts.filter fun p => p.workspaceId = part.workspaceId ∧ p.archivedAt = none :=
    List.mem_filter.mpr ⟨hpart, decide_eq_true ⟨rfl, hactive⟩⟩
  have hsome : (activePart db.toDb part.workspaceId part.id).isSome = true :=
    List.find?_isSome.mpr ⟨part, hmem, decide_eq_true rfl⟩
  obtain ⟨found, hfound⟩ := Option.isSome_iff_exists.mp hsome
  have hid : found.id = part.id := by simpa using List.find?_some hfound
  rw [hfound, List.inj_on_of_nodup_map hdb (List.mem_filter.mp (List.mem_of_find?_eq_some hfound)).1 hpart hid]

/-- The unique columns and `ck_part_eda_symbol_ref_exclusive` -/
structure Constrained (db : Estate) : Prop where
  parts : (db.parts.map (·.id)).Nodup
  symbols : (db.symbols.map (·.id)).Nodup
  partEda : (db.partEda.map (·.partId)).Nodup
  exclusive : ∀ config ∈ db.partEda, config.symbolId = none ∨ config.symbolRefExternal = none

/-- A `PUT` or a deletion writes configs, and an import adds entries of the library too. -/
structure Edited (db db' : Estate) : Prop where
  workspaces : db'.workspaces = db.workspaces
  parts : db'.parts = db.parts
  categories : db'.categories = db.categories
  symbols : db.symbols <+: db'.symbols

theorem Edited.joinCategory (h : Edited db db') (workspaceId : Uuid) (categoryId : Option Uuid) :
    joinCategory db'.toDb workspaceId categoryId = Kicad.joinCategory db.toDb workspaceId categoryId := by
  rw [Kicad.joinCategory, Kicad.joinCategory, h.categories]

theorem Edited.joinEntry (h : Edited db db') {entryId : Option Uuid}
    (hsymbol : joinEntry db.symbols workspaceId entryId = some symbol) :
    Kicad.joinEntry db'.symbols workspaceId entryId = some symbol := by
  obtain ⟨more, hmore⟩ := h.symbols
  rw [Kicad.joinEntry, ← hmore, List.find?_append]
  rw [Kicad.joinEntry] at hsymbol
  rw [hsymbol, Option.some_or]

theorem exclusive_of_symbol (hdb : Constrained db) {symbolId : Uuid}
    (hconfig : configOf db.partEda workspaceId partId = some config) (hsymbol : config.symbolId = some symbolId) :
    config.symbolRefExternal = none := by
  refine (hdb.exclusive config (List.mem_of_find?_eq_some hconfig)).resolve_left fun hnone => ?_
  rw [hsymbol] at hnone
  exact absurd hnone (Option.some_ne_none _)

theorem symbolId_of_join {entries : List EdaEntry} {entryId : Option Uuid}
    (h : joinEntry entries workspaceId entryId = some symbol) : entryId = some symbol.id := by
  have hwhere : some symbol.id = entryId ∧ symbol.workspaceId = workspaceId ∧ symbol.archivedAt = none := by
    simpa using List.find?_some h
  exact hwhere.1.symm

theorem served_cleared {category : PartCategory} (hdb : Constrained db)
    (hdb' : Constrained db') (hedited : Edited db db') (hrow : Selected db row part config symbol category)
    (hcleared : (configOf db'.partEda row.workspaceId row.partId).bind (·.symbolId) = some row.symbolId)
    (hreported : (row.workspaceId, row.partId) ∈ clearedParts outcomes) :
    servedSymbol db.toDb row.workspaceId row.partId = some row.before ∧
      servedSymbol db'.toDb row.workspaceId row.partId = some row.before ∧
      servedSymbol (clearedDb db' outcomes).toDb row.workspaceId row.partId = some row.after := by
  have hself := activePart_self hdb.parts hrow.mem hrow.active
  have hself' : activePart db'.toDb part.workspaceId part.id = some part := by
    rw [activePart, hedited.parts]
    exact hself
  rw [hrow.workspaceId, hrow.partId] at hcleared hreported ⊢
  obtain ⟨config', hconfig', hsymbol'⟩ := Option.bind_eq_some_iff.mp hcleared
  have hexternal := exclusive_of_symbol hdb hrow.configFound (symbolId_of_join hrow.symbolFound)
  have hexternal' := exclusive_of_symbol hdb' hconfig' hsymbol'
  refine ⟨?_, ?_, ?_⟩
  · rw [servedSymbol, hself, Option.bind_some, hrow.before]
    exact symbolIdStr_hosted hexternal hrow.configFound hrow.symbolFound
  · have hjoined : joinEntry db'.symbols part.workspaceId config'.symbolId = some symbol := by
      refine hedited.joinEntry ?_
      rw [hsymbol', ← hrow.symbolId, ← symbolId_of_join hrow.symbolFound]
      exact hrow.symbolFound
    rw [servedSymbol, hself', Option.bind_some, hrow.before, ← hedited.joinCategory]
    exact symbolIdStr_hosted hexternal' hconfig' hjoined
  · have hkey : config'.partId = part.id ∧ config'.workspaceId = part.workspaceId := by
      simpa using List.find?_some hconfig'
    have hwritten : configOf (clearedDb db' outcomes).partEda part.workspaceId part.id =
        some { config' with symbolId := none } := by
      rw [clearedDb, configOf_clearAll, hconfig', Option.map_some, clearAll, hkey.1, hkey.2, if_pos hreported]
    have hactive : activePart (clearedDb db' outcomes).toDb part.workspaceId part.id = some part := hself'
    rw [servedSymbol, hactive, Option.bind_some]
    exact @symbolIdStr_default (clearedDb db' outcomes) part { config' with symbolId := none } category row.after
      hexternal' rfl hwritten ((hedited.joinCategory _ _).trans hrow.categoryFound) hrow.after hrow.usable

theorem partRow_configs (h : configOf (clearedDb db outcomes).partEda part.workspaceId part.id =
    configOf db.partEda part.workspaceId part.id) :
    partRow (clearedDb db outcomes).toDb part = partRow db.toDb part := by
  rw [configOf, configOf] at h
  unfold partRow
  rw [h]
  rfl

theorem partDetail_kept (h : (workspaceId, partId) ∉ clearedParts outcomes) :
    partDetail baseUrl (clearedDb db outcomes).toDb workspaceId partId =
      partDetail baseUrl db.toDb workspaceId partId := by
  rw [partDetail_activePart, partDetail_activePart]
  have hactive : activePart (clearedDb db outcomes).toDb workspaceId partId =
      activePart db.toDb workspaceId partId := rfl
  rw [hactive]
  cases hpart : activePart db.toDb workspaceId partId with
  | none => rfl
  | some part =>
    have hid : part.id = partId := by simpa using List.find?_some hpart
    have hws : part.workspaceId = workspaceId :=
      (of_decide_eq_true (List.mem_filter.mp (List.mem_of_find?_eq_some hpart)).2).1
    have hconfig : configOf (clearedDb db outcomes).partEda part.workspaceId part.id =
        configOf db.partEda part.workspaceId part.id := by
      rw [clearedDb, configOf_clearAll]
      cases hfound : configOf db.partEda part.workspaceId part.id with
      | none => rfl
      | some config =>
        have hwhere : config.partId = part.id ∧ config.workspaceId = part.workspaceId := by
          simpa using List.find?_some hfound
        rw [Option.map_some, clearAll, hwhere.1, hwhere.2, hid, hws, if_neg h]
    rw [Option.bind_some, Option.bind_some, partRow_configs hconfig]
    rfl

theorem configOf_cleared_symbol {symbolId : Uuid}
    (hconfig : configOf (clearedDb db outcomes).partEda workspaceId partId = some config)
    (hsymbol : config.symbolId = some symbolId) :
    configOf db.partEda workspaceId partId = some config ∧ (workspaceId, partId) ∉ clearedParts outcomes := by
  rw [clearedDb, configOf_clearAll] at hconfig
  obtain ⟨config', hconfig', heq⟩ := Option.map_eq_some_iff.mp hconfig
  have hwhere : config'.partId = partId ∧ config'.workspaceId = workspaceId := by
    simpa using List.find?_some hconfig'
  rw [clearAll, hwhere.1, hwhere.2] at heq
  split at heq
  next =>
    rw [← heq] at hsymbol
    exact absurd hsymbol (Option.some_ne_none _).symm
  next hnot => exact ⟨heq ▸ hconfig', hnot⟩

theorem joinRow_cleared (h : joinRow (clearedDb db outcomes) part = some found) :
    joinRow db part = some found := by
  obtain ⟨workspace, hworkspace, h⟩ := Option.bind_eq_some_iff.mp h
  obtain ⟨config, hconfig, h⟩ := Option.bind_eq_some_iff.mp h
  obtain ⟨symbol, hsymbol, h⟩ := Option.bind_eq_some_iff.mp h
  obtain ⟨hconfig', -⟩ := configOf_cleared_symbol hconfig (symbolId_of_join hsymbol)
  exact Option.bind_eq_some_iff.mpr ⟨workspace, hworkspace, Option.bind_eq_some_iff.mpr ⟨config, hconfig',
    Option.bind_eq_some_iff.mpr ⟨symbol, hsymbol, h⟩⟩⟩

/-- Configs may change and entries may be imported between the selection on `db` and the write on `db'`. -/
theorem collapse_keeps_parts {collate : String → String → Bool} {db db' : Estate} {scope : Option Uuid}
    {candidates : List CollapseCandidate} (hdb : Constrained db) (hdb' : Constrained db') (hedited : Edited db db')
    (hselected : collapseCandidates collate db scope = some candidates) :
    (∀ baseUrl workspaceId partId,
      (partDetail baseUrl (apply db' candidates).1.toDb workspaceId partId).isSome =
        (partDetail baseUrl db'.toDb workspaceId partId).isSome) ∧
      (∀ row ∈ (apply db' candidates).2, row.action = .cleared → ∀ baseUrl,
        (partDetail baseUrl db.toDb row.workspaceId row.partId).map (·.symbolIdStr) = some row.before ∧
          (partDetail baseUrl db'.toDb row.workspaceId row.partId).map (·.symbolIdStr) = some row.before ∧
          (partDetail baseUrl (apply db' candidates).1.toDb row.workspaceId row.partId).map (·.symbolIdStr) =
            some row.after) ∧
      (∀ baseUrl workspaceId partId,
        (∀ row ∈ (apply db' candidates).2, row.action = .cleared →
          (row.workspaceId, row.partId) ≠ (workspaceId, partId)) →
        partDetail baseUrl (apply db' candidates).1.toDb workspaceId partId =
          partDetail baseUrl db'.toDb workspaceId partId) ∧
      (∀ config ∈ db'.partEda, ∀ symbol ∈ db'.symbols, some symbol.id = config.symbolId →
        symbol.source = "manual" → config ∈ (apply db' candidates).1.partEda) ∧
      ∃ second, collapseCandidates collate (apply db' candidates).1 scope = some second ∧
        (∀ row ∈ second, ∀ candidate ∈ candidates,
          ¬(candidate.partId = row.partId ∧ candidate.symbolId = row.symbolId)) ∧
        (db' = db → second = []) := by
  have hrow : ∀ row ∈ candidates, ∃ part config symbol category, Selected db row part config symbol category := by
    intro row hrow
    obtain ⟨part, hpart, found, hjoin, hwhere, -, rfl⟩ := (mem_candidates hselected).mp hrow
    obtain ⟨config, hall⟩ := selected_of_join hpart hjoin hwhere
    exact ⟨part, config, _, _, hall⟩
  obtain ⟨outcomes, hperm, happly⟩ := apply_eq hdb'.partEda (nodup_candidates hdb.parts hselected)
    fun row hmem => by
      obtain ⟨part, config, symbol, category, hall⟩ := hrow row hmem
      rw [hedited.workspaces]
      exact hall.workspace
  rw [happly]
  have hkeys : ∀ item, item ∈ clearedParts outcomes ↔ ∃ row ∈ candidates,
      (configOf db'.partEda row.workspaceId row.partId).bind (·.symbolId) = some row.symbolId ∧
        (row.workspaceId, row.partId) = item := by
    intro item
    rw [← mem_clearedParts_stamp]
    exact ((hperm.filter _).map _).mem_iff
  -- a cleared candidate, named by its part
  have hserved : ∀ item ∈ clearedParts outcomes, ∃ before after,
      servedSymbol db'.toDb item.1 item.2 = some before ∧
        servedSymbol (clearedDb db' outcomes).toDb item.1 item.2 = some after := by
    intro item hitem
    obtain ⟨row, hmem, hcleared, rfl⟩ := (hkeys item).mp hitem
    obtain ⟨part, config, symbol, category, hall⟩ := hrow row hmem
    exact ⟨_, _, (served_cleared hdb hdb' hedited hall hcleared hitem).2⟩
  have hothers : ∀ row ∈ outcomes, row.action = .cleared → (row.workspaceId, row.partId) ∈ clearedParts outcomes :=
    fun row hmem haction => List.mem_map.mpr ⟨row, List.mem_filter.mpr ⟨hmem, decide_eq_true haction⟩, rfl⟩
  refine ⟨fun baseUrl workspaceId partId => ?_, fun row hmem haction baseUrl => ?_,
    fun baseUrl workspaceId partId hnot => ?_, fun config hconfig symbol hsymbol hid hmanual => ?_, ?_⟩
  · by_cases hmem : (workspaceId, partId) ∈ clearedParts outcomes
    · obtain ⟨before, after, hbefore, hafter⟩ := hserved _ hmem
      rw [isSome_partDetail, isSome_partDetail, hafter, hbefore]
      rfl
    · rw [partDetail_kept hmem]
  · have hreported := hothers row hmem haction
    obtain ⟨candidate, hcandidate, rfl⟩ := List.mem_map.mp (hperm.mem_iff.mp hmem)
    obtain ⟨part, config, symbol, category, hall⟩ := hrow candidate hcandidate
    have hcleared : (configOf db'.partEda candidate.workspaceId candidate.partId).bind (·.symbolId) =
        some candidate.symbolId := by
      by_contra hchanged
      rw [stamp, if_neg hchanged] at haction
      exact absurd haction (by simp)
    rw [map_partDetail, map_partDetail, map_partDetail]
    rw [stamp, if_pos hcleared] at hreported ⊢
    have hserved := served_cleared hdb hdb' hedited hall hcleared hreported
    exact hserved
  · refine partDetail_kept fun hmem => ?_
    obtain ⟨row, hfiltered, heq⟩ := List.mem_map.mp hmem
    obtain ⟨hrow, haction⟩ := List.mem_filter.mp hfiltered
    exact hnot row hrow (of_decide_eq_true haction) heq
  · refine List.mem_map.mpr ⟨config, hconfig, if_neg fun hmem => ?_⟩
    obtain ⟨row, hmem, hcleared, heq⟩ := (hkeys _).mp hmem
    obtain ⟨part, config₀, symbol₀, category, hall⟩ := hrow row hmem
    obtain ⟨hws, hpart⟩ := Prod.mk.inj heq
    rw [hws, hpart, (configOf_eq_some hdb'.partEda).mpr ⟨hconfig, rfl, rfl⟩, Option.bind_some, ← hid] at hcleared
    obtain ⟨more, hmore⟩ := hedited.symbols
    have hvendor : symbol₀ ∈ db'.symbols :=
      hmore ▸ List.mem_append_left _ (List.mem_of_find?_eq_some hall.symbolFound)
    have hsame := List.inj_on_of_nodup_map hdb'.symbols hsymbol hvendor
      ((Option.some.inj hcleared).trans hall.symbolId.symm)
    exact hall.vendor (hsame ▸ hmanual)
  · have hscope : ∃ second, collapseCandidates collate (clearedDb db' outcomes) scope = some second := by
      have hworkspaces : (clearedDb db' outcomes).workspaces = db.workspaces := hedited.workspaces
      rw [collapseCandidates, hworkspaces]
      rw [collapseCandidates] at hselected
      split at hselected
      next hall => exact ⟨_, if_pos hall⟩
      next => exact absurd hselected (Option.some_ne_none _).symm
    obtain ⟨second, hsecond⟩ := hscope
    have hnew : ∀ row ∈ second, ∀ candidate ∈ candidates,
        ¬(candidate.partId = row.partId ∧ candidate.symbolId = row.symbolId) := by
      intro row hmem candidate hcandidate hsame
      obtain ⟨part, hpart, found, hjoin, hwhere, -, rfl⟩ := (mem_candidates hsecond).mp hmem
      obtain ⟨config, hall⟩ := selected_of_join hpart hjoin hwhere
      obtain ⟨part₀, config₀, symbol₀, category₀, hall₀⟩ := hrow candidate hcandidate
      have hid : part.id = part₀.id := by rw [← hall₀.partId, hsame.1, hall.partId]
      have hmem₀ : part₀ ∈ db'.parts := hedited.parts ▸ hall₀.mem
      obtain rfl := List.inj_on_of_nodup_map hdb'.parts hall.mem hmem₀ hid
      obtain ⟨hconfig, hnot⟩ := configOf_cleared_symbol hall.configFound (symbolId_of_join hall.symbolFound)
      refine hnot ((hkeys _).mpr ⟨candidate, hcandidate, ?_, ?_⟩)
      · rw [hall₀.workspaceId, hall₀.partId, hconfig, Option.bind_some, symbolId_of_join hall.symbolFound,
          hall.symbolId, hsame.2]
      · rw [hall₀.workspaceId, hall₀.partId]
    refine ⟨second, hsecond, hnew, fun heq => List.eq_nil_iff_forall_not_mem.mpr fun row hmem => ?_⟩
    obtain ⟨part, hpart, found, hjoin, hwhere, hin, rfl⟩ := (mem_candidates hsecond).mp hmem
    have hfirst : rowToCandidate found ∈ candidates :=
      (mem_candidates hselected).mpr ⟨part, heq ▸ hpart, found, heq ▸ joinRow_cleared hjoin, hwhere, hin, rfl⟩
    exact hnew _ hmem _ hfirst ⟨rfl, rfl⟩

def sampleCategory : PartCategory where
  id := 10
  name := "Resistors"
  sortOrder := 0
  parentId := none
  archivedAt := none
  workspaceId := 1
  refdesPrefix := none
  valueTemplate := none
  kicadFields := none
  listColumns := none
  listSort := none
  description := none
  librarySlug := "resistors"
  defaultSymbolRef := some "Device:R"
  defaultFootprintRef := none
  footprintFilters := none

def sampleSymbol (id : Uuid) : EdaEntry := ⟨id, 1, "R", "snapeda", none, none⟩

def sampleConfig (symbolId : Uuid) : PartEda where
  workspaceId := 1
  partId := 20
  symbolId := some symbolId
  symbolRefExternal := none
  footprintId := none
  footprintRefExternal := none
  spiceDatafileId := none
  value := none
  keywords := none
  footprintFilters := none
  excludeFromBom := false
  excludeFromBoard := false
  excludeFromSim := true
  simDevice := none
  simPins := none
  simParams := none

/-- One resistor that uses one of two vendor symbols -/
def sampleEstate (symbolId : Uuid) : Estate where
  parts := [⟨20, 1, "10k", some 10, none, none, none, none, none⟩]
  partEda := [sampleConfig symbolId]
  symbols := [sampleSymbol 30, sampleSymbol 31]
  footprints := []
  datafiles := []
  categories := [sampleCategory]
  customFields := []
  workspaces := [⟨1, "Lab"⟩]

theorem sampleEstate_constrained (symbolId : Uuid) : Constrained (sampleEstate symbolId) :=
  ⟨by simp [sampleEstate], by simp [sampleEstate, sampleSymbol], by simp [sampleEstate],
    fun config hconfig => .inr (List.mem_singleton.mp hconfig ▸ rfl)⟩

theorem sampleEstate_edited : Edited (sampleEstate 30) (sampleEstate 31) :=
  ⟨rfl, rfl, rfl, List.prefix_refl _⟩

def collateSample (a b : String) : Bool := decide (a ≤ b)

theorem collapse_keeps_parts_resistor :
    ∃ candidates, collapseCandidates collateSample (sampleEstate 30) none = some candidates ∧
      (partDetail "" (apply (sampleEstate 30) candidates).1.toDb 1 20).isSome =
        (partDetail "" (sampleEstate 30).toDb 1 20).isSome ∧
      collapseCandidates collateSample (apply (sampleEstate 30) candidates).1 none = some [] := by
  have hselected : (collapseCandidates collateSample (sampleEstate 30) none).isSome = true := by decide
  obtain ⟨candidates, hselected⟩ := Option.isSome_iff_exists.mp hselected
  have hedited : Edited (sampleEstate 30) (sampleEstate 30) := ⟨rfl, rfl, rfl, List.prefix_refl _⟩
  obtain ⟨heligible, -, -, -, second, hsecond, -, hnone⟩ :=
    collapse_keeps_parts (sampleEstate_constrained 30) (sampleEstate_constrained 30) hedited hselected
  exact ⟨candidates, hselected, heligible "" 1 20, hnone rfl ▸ hsecond⟩

/-- A `PUT` between selection and write leaves the part to the next run. -/
theorem changed_config_found_again :
    Constrained (sampleEstate 30) ∧ Constrained (sampleEstate 31) ∧ Edited (sampleEstate 30) (sampleEstate 31) ∧
      ∃ candidates, collapseCandidates collateSample (sampleEstate 30) none = some candidates ∧
        collapseCandidates collateSample (apply (sampleEstate 31) candidates).1 none ≠ some [] := by
  refine ⟨sampleEstate_constrained 30, sampleEstate_constrained 31, sampleEstate_edited,
    (collapseCandidates collateSample (sampleEstate 30) none).getD [], ?_, ?_⟩ <;> decide +kernel

end StockManager.Kicad.SymbolCollapse
