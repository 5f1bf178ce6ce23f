import StockManager.Effects.PickRows
import StockManager.Properties.Progress

/-! # What the pick list promises

A sheet without a short line is a payload `consume` (or `consume_stage`) takes:
its picks stay within every bucket and cover every BOM line. -/

namespace StockManager

variable {e : ProjectEntry} {b : LocationStock} {part : Part}

/-- `stock_entries_unit_match_check` and `parts_unit_of_measure_change_check`: a
row is measured in its part's unit. -/
def UnitsMatch (db : Db) : Prop :=
  ∀ e ∈ db.stockEntries, ∀ part, e.partId.bind db.part = some part →
    part.workspaceId = e.workspaceId → e.unit = part.unitOfMeasure

/-- Entry ids are a primary key, and the project routes take parts of the workspace only. -/
structure BomSound (db : Db) : Prop where
  ids : (db.projectEntries.map (·.id)).Nodup
  parts : ∀ e ∈ db.projectEntries, ∀ part, e.partId.bind db.part = some part →
    part.workspaceId = e.workspaceId

section Pools

variable {db : Db} {workspaceId : Uuid} {partIds : List Uuid}

def LocationStock.key (b : LocationStock) : PickKey := (b.storageLocationId, b.lotId, b.unit)

def stockOf (db : Db) (workspaceId : Uuid) (partIds : List Uuid) (partId : Uuid) :
    List LocationStock :=
  (Dict.find partId (bulkStockByLocation db workspaceId partIds .onHand)).getD []

theorem locationStock_eq_some {item : (Option Uuid × Option Uuid × Option Uuid × String) × Decimal}
    {partId : Uuid} (h : locationStock item = some (partId, b)) :
    item = ((some partId, b.key), b.quantity) ∧ 0 < b.quantity := by
  obtain ⟨⟨part, storage, lot, unit⟩, quantity⟩ := item
  unfold locationStock at h
  simp only at h
  split at h
  next => cases h
  next hpos =>
    obtain ⟨id, rfl, hb⟩ := Option.map_eq_some_iff.mp h
    obtain ⟨rfl, rfl⟩ := Prod.mk.inj hb
    exact ⟨rfl, not_le.mp hpos⟩

theorem stockOf_quantity {partId : Uuid}
    (h : b ∈ stockOf db workspaceId partIds partId) : 0 < b.quantity ∧
      b.quantity = tally (fun e : StockEntry => (e.workspaceId = workspaceId ∧
          e.status = .onHand ∧ ∃ p ∈ partIds, e.partId = some p) ∧
          (e.partId, e.storageLocationId, e.lotId, e.unit) = (some partId, b.key))
        (·.quantityDelta) db.stockEntries := by
  rw [stockOf, bulkStockByLocation, Dict.getD_find_gather] at h
  obtain ⟨⟨id, _⟩, hmem, rfl⟩ := List.mem_map.mp h
  obtain ⟨hstock, hid⟩ := List.mem_filter.mp hmem
  obtain rfl : id = partId := by simpa using hid
  obtain ⟨item, hitem, hsome⟩ := List.mem_filterMap.mp hstock
  obtain ⟨rfl, hpos⟩ := locationStock_eq_some hsome
  refine ⟨hpos, ?_⟩
  rw [(Dict.mem_totals.mp hitem).2, Tally.tally_filter]

theorem stockOf_nodup (partId : Uuid) :
    ((stockOf db workspaceId partIds partId).map LocationStock.key).Nodup := by
  let grouped := Dict.totals
    (fun e : StockEntry => (e.partId, e.storageLocationId, e.lotId, e.unit)) (·.quantityDelta)
    (db.stockEntries.filter fun e => e.workspaceId = workspaceId ∧ e.status = .onHand ∧
      ∃ p ∈ partIds, e.partId = some p)
  have hkeys : grouped.Pairwise fun a b => a.1 ≠ b.1 := by
    have hnodup : (Dict.keys grouped).Nodup := Dict.nodup_keys_collect (by simp [Dict.keys]) _
    exact List.pairwise_map.mp hnodup
  have hstocks : (grouped.filterMap locationStock).Pairwise fun x y =>
      (x.1, x.2.key) ≠ (y.1, y.2.key) := by
    rw [List.pairwise_filterMap]
    apply hkeys.imp
    intro a b hne x hx y hy heq
    obtain ⟨rfl, _⟩ := locationStock_eq_some hx
    obtain ⟨rfl, _⟩ := locationStock_eq_some hy
    simp only [Prod.mk.injEq] at heq
    exact hne (by rw [heq.1, heq.2])
  rw [stockOf, bulkStockByLocation, Dict.getD_find_gather, List.map_map, List.Nodup,
    List.pairwise_map]
  apply (hstocks.filter _).imp_of_mem
  intro x y hx hy hne heq
  have hx' : x.1 = partId := by simpa using (List.mem_filter.mp hx).2
  have hy' : y.1 = partId := by simpa using (List.mem_filter.mp hy).2
  exact hne (Prod.ext (hx'.trans hy'.symm) heq)

theorem poolSound_stockOf (partId : Uuid) :
    PoolSound ((stockOf db workspaceId partIds partId).map (poolBucket db workspaceId)) := by
  constructor
  case keys =>
    rw [List.map_map]
    exact stockOf_nodup partId
  case nonneg =>
    intro b hb
    obtain ⟨stock, hstock, rfl⟩ := List.mem_map.mp hb
    exact le_of_lt (stockOf_quantity hstock).1

theorem stockOf_balance (hunits : UnitsMatch db)
    (hpart : db.part part.id = some part) (hws : part.workspaceId = workspaceId)
    (hb : b ∈ stockOf db workspaceId partIds part.id) :
    b.unit = part.unitOfMeasure ∧
      b.quantity = balance db.stockEntries ⟨workspaceId, some part.id, b.lotId,
        b.storageLocationId⟩ := by
  obtain ⟨hpos, hsum⟩ := stockOf_quantity hb
  have hunit : ∀ e ∈ db.stockEntries, e.workspaceId = workspaceId → e.partId = some part.id →
      e.unit = part.unitOfMeasure := by
    intro e he hews hepart
    exact hunits e he part (by rw [hepart, Option.bind_some, hpart]) (hws.trans hews.symm)
  obtain ⟨e, he, ⟨⟨hews, _, p, hp, hpid⟩, hkey⟩, _⟩ :=
    Tally.exists_pos_of_tally_pos _ _ (hsum ▸ hpos)
  simp only [Prod.mk.injEq, LocationStock.key] at hkey
  have hbunit : b.unit = part.unitOfMeasure := by
    rw [← hkey.2.2.2]
    exact hunit e he hews hkey.1
  have hasked : part.id ∈ partIds := by
    obtain rfl : p = part.id := Option.some.inj (hpid.symm.trans hkey.1)
    exact hp
  refine ⟨hbunit, ?_⟩
  rw [hsum]
  apply Tally.tally_congr
  · intro r hr
    simp only [StockEntry.bucket, Bucket.mk.injEq, Prod.mk.injEq, LocationStock.key]
    constructor
    · rintro ⟨⟨hrws, hstatus, _⟩, hrpart, hrstorage, hrlot, _⟩
      exact ⟨hstatus, hrws, hrpart, hrlot, hrstorage⟩
    · rintro ⟨hstatus, hrws, hrpart, hrlot, hrstorage⟩
      exact ⟨⟨hrws, hstatus, part.id, hasked, hrpart⟩, hrpart, hrstorage, hrlot,
        (hunit r hr hrws hrpart).trans hbunit.symm⟩
  · exact fun _ _ _ => rfl

end Pools

/-- Every row is a BOM line the pass takes, and every required quantity is some row's. -/
structure RowsCover (db : Db) (workspaceId : Uuid) (project : Project) (rows : List PickRow)
    (requiredByEntry : List (Uuid × ℤ)) : Prop where
  line : ∀ row ∈ rows, BomLine db workspaceId project row.entry.id row.entry row.part ∧
    row.part.workspaceId = workspaceId ∧ row.entry.id ∈ Dict.keys requiredByEntry
  covers : ∀ item ∈ requiredByEntry, ∃ row ∈ rows, row.entry.id = item.1 ∧ row.required = item.2

section Rows

variable {db : Db} {workspaceId : Uuid} {build : Build} {project : Project}

theorem entriesById_eq {entries : List ProjectEntry} (h : (entries.map (·.id)).Nodup) :
    entries.foldl (fun d e => Dict.put e.id e d) [] = entries.map fun e => (e.id, e) :=
  Dict.foldl_put_of_nodup (fun e : ProjectEntry => e.id) (fun e => e) h

theorem find_entriesById {entries : List ProjectEntry} (h : (entries.map (·.id)).Nodup)
    {id : Uuid} :
    Dict.find id (entries.foldl (fun d e => Dict.put e.id e d) []) = some e ↔
      e ∈ entries ∧ e.id = id := by
  have hkeys : (Dict.keys (entries.map fun e => (e.id, e))).Nodup := by
    rw [Dict.keys, List.map_map]
    exact h
  rw [entriesById_eq h, ← Dict.mem_iff_find hkeys]
  simp only [List.mem_map, Prod.mk.injEq]
  constructor
  · rintro ⟨x, hx, hid, rfl⟩
    exact ⟨hx, hid⟩
  · rintro ⟨he, hid⟩
    exact ⟨e, he, hid, rfl⟩

theorem projectEntriesById_find (hids : (db.projectEntries.map (·.id)).Nodup)
    (he : e ∈ projectEntriesOf db workspaceId project) :
    Dict.find e.id (projectEntriesById db workspaceId project) = some e :=
  (find_entriesById (hids.sublist (List.filter_sublist.map _))).mpr ⟨he, rfl⟩

theorem mem_consumableEntries :
    e ∈ consumableEntries db workspaceId project ↔
      e ∈ projectEntriesOf db workspaceId project ∧ e.consumable := by
  rw [consumableEntries, List.mem_filter, List.mem_insertionSort, decide_eq_true_eq]

theorem bomPart_workspace (h : BomSound db)
    (he : e ∈ projectEntriesOf db workspaceId project) (hpart : e.partId.bind db.part = some part) :
    part.workspaceId = workspaceId := by
  obtain ⟨hrow, hwhere⟩ := List.mem_filter.mp he
  exact (h.parts e hrow part hpart).trans (of_decide_eq_true hwhere).1

theorem pickRow_eq_some (h : BomSound db) {req : Part → Decimal}
    {portion : Option Decimal} (he : e ∈ consumableEntries db workspaceId project) {row : PickRow} :
    pickRow db workspaceId e req portion = some row ↔
      ∃ part, BomLine db workspaceId project e.id e part ∧ part.workspaceId = workspaceId ∧
        row = ⟨e, part, req part, portion⟩ := by
  obtain ⟨hmem, hconsumable⟩ := mem_consumableEntries.mp he
  simp only [pickRow, bomPart, Option.map_eq_some_iff, belongs_eq_some]
  constructor
  · rintro ⟨part, ⟨hpart, hws⟩, rfl⟩
    exact ⟨part, ⟨projectEntriesById_find h.ids hmem, hconsumable, hpart⟩, hws, rfl⟩
  · rintro ⟨part, hbom, hws, rfl⟩
    exact ⟨part, ⟨hbom.part, hws⟩, rfl⟩

theorem mem_requiredOfBuild (hentryIds : (db.projectEntries.map (·.id)).Nodup) {item : Uuid × ℤ} :
    item ∈ requiredOfBuild db workspaceId build project ↔
      ∃ e ∈ consumableEntries db workspaceId project, ∃ part,
        e.partId.bind db.part = some part ∧ item = (e.id, required e (some part) build.quantity) := by
  let slot := fun e : ProjectEntry => (e.partId.bind db.part).map fun part =>
    (e.id, required e (some part) build.quantity)
  have hloop : requiredOfBuild db workspaceId build project =
      ((consumableEntries db workspaceId project).filterMap slot).foldl
        (fun d item => Dict.put item.1 item.2 d) [] := by
    unfold requiredOfBuild
    generalize consumableEntries db workspaceId project = entries
    generalize ([] : List (Uuid × ℤ)) = d
    induction entries generalizing d with
    | nil => rfl
    | cons e entries ih =>
      rw [List.foldl_cons, ih]
      cases hpart : e.partId.bind db.part with
      | none => rw [List.filterMap_cons_none (by simp only [slot, hpart, Option.map_none])]
      | some part =>
        rw [List.filterMap_cons_some (b := (e.id, required e (some part) build.quantity))
          (by simp only [slot, hpart, Option.map_some]), List.foldl_cons]
  have hids : (((consumableEntries db workspaceId project).filterMap slot).map Prod.fst).Nodup := by
    rw [List.Nodup, List.pairwise_map, List.pairwise_filterMap]
    apply (List.pairwise_map.mp (consumableEntries_ids hentryIds)).imp
    intro a b hne x hx y hy heq
    obtain ⟨_, _, rfl⟩ := Option.map_eq_some_iff.mp hx
    obtain ⟨_, _, rfl⟩ := Option.map_eq_some_iff.mp hy
    exact hne heq
  have hput : requiredOfBuild db workspaceId build project =
      ((consumableEntries db workspaceId project).filterMap slot).map fun item =>
        (item.1, item.2) :=
    hloop.trans (Dict.foldl_put_of_nodup Prod.fst Prod.snd hids)
  rw [hput]
  simp only [Prod.mk.eta, List.map_id', List.mem_filterMap, slot, Option.map_eq_some_iff,
    eq_comm (a := item)]

theorem entryRows_whole (h : BomSound db) : RowsCover db workspaceId project
    (entryRows db workspaceId project build none)
    (requiredOfBuild db workspaceId build project) := by
  have hids : ((consumableEntries db workspaceId project).map (·.id)).Nodup :=
    consumableEntries_ids h.ids
  have hentries := entriesById_eq hids
  have hrow : ∀ row, row ∈ entryRows db workspaceId project build none ↔
      ∃ e ∈ consumableEntries db workspaceId project, pickRow db workspaceId e
        (fun part => required e (some part) build.quantity) none = some row := by
    intro row
    simp only [entryRows]
    rw [hentries, List.filterMap_map]
    exact List.mem_filterMap
  constructor
  case line =>
    intro row hmem
    obtain ⟨e, he, hsome⟩ := (hrow row).mp hmem
    obtain ⟨part, hbom, hws, rfl⟩ := (pickRow_eq_some h he).mp hsome
    refine ⟨hbom, hws, ?_⟩
    exact List.mem_map.mpr ⟨_, (mem_requiredOfBuild h.ids).mpr ⟨e, he, part, hbom.part, rfl⟩, rfl⟩
  case covers =>
    intro item hitem
    obtain ⟨e, he, part, hpart, rfl⟩ := (mem_requiredOfBuild h.ids).mp hitem
    obtain ⟨hmem, hconsumable⟩ := mem_consumableEntries.mp he
    have hbom : BomLine db workspaceId project e.id e part :=
      ⟨projectEntriesById_find h.ids hmem, hconsumable, hpart⟩
    refine ⟨_, (hrow _).mpr ⟨e, he, (pickRow_eq_some h he).mpr
      ⟨part, hbom, bomPart_workspace h hmem hpart, rfl⟩⟩, rfl, rfl⟩

theorem entryRows_stage (h : BomSound db) (stage : BuildStage) :
    RowsCover db workspaceId project (entryRows db workspaceId project build (some stage))
      (requiredOfStage db workspaceId build project stage.id) := by
  have hids : ((consumableEntries db workspaceId project).map (·.id)).Nodup :=
    consumableEntries_ids h.ids
  constructor
  case line =>
    intro row hmem
    simp only [entryRows, List.mem_filterMap] at hmem
    obtain ⟨⟨entryId, slice⟩, hslice, hsome⟩ := hmem
    split at hsome
    next => cases hsome
    next hpos =>
      obtain ⟨e, hfind, hrow⟩ := Option.bind_eq_some_iff.mp hsome
      obtain ⟨he, rfl⟩ := (find_entriesById hids).mp hfind
      obtain ⟨part, hbom, hws, rfl⟩ := (pickRow_eq_some h he).mp hrow
      refine ⟨hbom, hws, ?_⟩
      exact List.mem_map.mpr ⟨_, List.mem_filter.mpr ⟨hslice, by simpa using hpos⟩, rfl⟩
  case covers =>
    rintro ⟨entryId, slice⟩ hitem
    obtain ⟨hpos, e, part, hbom⟩ := requiredOfStage_item hitem
    obtain ⟨hmem, rfl⟩ := (find_entriesById (h.ids.sublist (List.filter_sublist.map _))).mp
      hbom.found
    have he : e ∈ consumableEntries db workspaceId project :=
      mem_consumableEntries.mpr ⟨hmem, hbom.consumable⟩
    have hws : part.workspaceId = workspaceId := bomPart_workspace h hmem hbom.part
    let portions : List (Uuid × Decimal) := (stageLines db workspaceId [stage.id]).foldl
      (fun d line => Dict.put line.projectEntryId line.portionPct d) []
    refine ⟨⟨e, part, slice, Dict.find e.id portions⟩, ?_, rfl, rfl⟩
    simp only [entryRows, List.mem_filterMap]
    refine ⟨(e.id, slice), (List.mem_filter.mp hitem).1, ?_⟩
    rw [if_neg (not_le.mpr hpos)]
    refine Option.bind_eq_some_iff.mpr ⟨e, (find_entriesById hids).mpr ⟨he, rfl⟩, ?_⟩
    exact (pickRow_eq_some h he).mpr ⟨part, hbom, hws, rfl⟩

end Rows

/-- A pick as a consume line names it. -/
structure PickedLine where
  projectEntryId : Uuid
  partId : Uuid
  lotId : Option Uuid
  storageLocationId : Option Uuid
  quantity : Decimal
  deriving DecidableEq

def ConsumeLineIn.picked (line : ConsumeLineIn) : PickedLine :=
  ⟨line.projectEntryId, line.partId, line.lotId, line.storageLocationId, line.quantity⟩

def SheetPick.picked (storageLocationId : Option Uuid) (pick : SheetPick) : PickedLine :=
  ⟨pick.projectEntryId, pick.partId, pick.lotId, storageLocationId, pick.quantity⟩

/-- Everything the walk takes, stop by stop. -/
def PickSheet.picked (sheet : PickSheet) : List PickedLine :=
  sheet.stops.flatMap fun stop => stop.picks.map (·.picked stop.storageLocationId)

section Sheet

variable (casefold : String → String) (db : Db) (workspaceId : Uuid) (build : Build)
  (project : Project) (stage : Option BuildStage)

def sheetPartIds : List Uuid :=
  let rows := entryRows db workspaceId project build stage
  rows.map (·.part.id) ++ rows.flatMap fun row => candidatePartIds db row.part

def sheetPools : List (Uuid × List PickBucket) :=
  (entryRows db workspaceId project build stage).foldl (fun d row => Dict.put row.part.id
    ((stockOf db workspaceId (sheetPartIds db workspaceId build project stage) row.part.id).map
      (poolBucket db workspaceId)) d) []

def sheetServed : List ServedRow :=
  serveRows casefold ((entryRows db workspaceId project build stage).insertionSort
    fun a b => a.entry.orderIndex ≤ b.entry.orderIndex)
    (sheetPools db workspaceId build project stage)

theorem pickList_stops : (pickList casefold db workspaceId build project stage).stops =
    pickStops casefold db workspaceId
      (sheetServed casefold db workspaceId build project stage) := rfl

theorem pickList_covered
    (h : (pickList casefold db workspaceId build project stage).shortLines = 0) :
    ∀ s ∈ sheetServed casefold db workspaceId build project stage,
      s.row.required ≤ (s.picks.map (·.take)).sum := by
  intro s hs
  have hnone := List.length_eq_zero_iff.mp h
  rw [List.filter_eq_nil_iff] at hnone
  have hline := hnone _ (List.mem_map_of_mem hs)
  simp only [linePayload, decide_eq_true_eq, not_lt] at hline
  have hshort := le_trans (le_max_right _ _) hline
  linarith

theorem poolOf_sheetPools (partId : Uuid) :
    poolOf (sheetPools db workspaceId build project stage) partId =
      if partId ∈ (entryRows db workspaceId project build stage).map (·.part.id) then
        (stockOf db workspaceId (sheetPartIds db workspaceId build project stage) partId).map
          (poolBucket db workspaceId)
      else [] := by
  rw [poolOf, sheetPools, Dict.find_foldl_put_key (fun row : PickRow => row.part.id)
    fun id => (stockOf db workspaceId (sheetPartIds db workspaceId build project stage) id).map
      (poolBucket db workspaceId)]
  split <;> rfl

theorem sheetPools_sound (partId : Uuid) :
    PoolSound (poolOf (sheetPools db workspaceId build project stage) partId) := by
  rw [poolOf_sheetPools]
  split
  next => exact poolSound_stockOf partId
  next => exact PoolSound.empty

def pickedOf (item : PickRow × BucketPick) : PickedLine :=
  (sheetPick item.1 item.2).picked item.2.bucket.storageLocationId

theorem pickStops_picked (served : List ServedRow) :
    ((pickStops casefold db workspaceId served).flatMap fun stop =>
      stop.picks.map (·.picked stop.storageLocationId)).Perm
        ((servedPicks served).map pickedOf) := by
  let picks : List (Option Uuid × SheetPick) := served.flatMap fun s =>
    s.picks.map fun pick => (pick.bucket.storageLocationId, sheetPick s.row pick)
  let stops := Dict.gather Prod.fst Prod.snd picks
  have hstop : ∀ item ∈ stops, ((pickStop casefold db workspaceId item).picks.map
      (·.picked item.1)).Perm (item.2.map (·.picked item.1)) :=
    fun item _ => (List.perm_insertionSort _ item.2).map _
  have hserved : picks.map (fun p => p.2.picked p.1) = (servedPicks served).map pickedOf := by
    simp only [picks, servedPicks, List.map_flatMap, List.map_map]
    rfl
  have hpairs : stops.flatMap (fun item => item.2.map (·.picked item.1)) =
      (Dict.pairs stops).map fun p => p.2.picked p.1 := by
    simp only [Dict.pairs, List.map_flatMap, List.map_map]
    rfl
  rw [pickStops, List.flatMap_map, ← hserved]
  refine (List.Perm.flatMap_right _ (List.perm_insertionSort _ stops)).trans ?_
  refine (List.Perm.flatMap_left stops hstop).trans ?_
  rw [hpairs]
  have hgather := (Dict.pairs_gather Prod.fst Prod.snd picks).map fun p => p.2.picked p.1
  simpa using hgather

theorem pickList_picked : (pickList casefold db workspaceId build project stage).picked.Perm
    ((servedPicks (sheetServed casefold db workspaceId build project stage)).map pickedOf) :=
  pickStops_picked casefold db workspaceId _

end Sheet

/-- The sheet has no short line and the payload's lines are its picks, one each. -/
structure PicksOf (casefold : String → String) (db : Db) (workspaceId : Uuid) (build : Build)
    (project : Project) (stage : Option BuildStage) (lines : List ConsumeLineIn) : Prop where
  covered : (pickList casefold db workspaceId build project stage).shortLines = 0
  lines : (lines.map (·.picked)).Perm
    (pickList casefold db workspaceId build project stage).picked

section Payload

variable {casefold : String → String} {db : Db} {workspaceId : Uuid} {build : Build}
  {project : Project} {stage : Option BuildStage} {lines : List ConsumeLineIn}
  {requiredByEntry : List (Uuid × ℤ)}

theorem PicksOf.served (h : PicksOf casefold db workspaceId build project stage lines) :
    (lines.map (·.picked)).Perm
      ((servedPicks (sheetServed casefold db workspaceId build project stage)).map pickedOf) :=
  h.lines.trans (pickList_picked casefold db workspaceId build project stage)

theorem PicksOf.sum_eq (h : PicksOf casefold db workspaceId build project stage lines)
    (p : PickedLine → Prop) [DecidablePred p] :
    ((tally (fun l => p l.picked) (·.quantity) lines : ℤ) : Decimal) =
      tally (fun item => p (pickedOf item)) (·.2.take)
        (servedPicks (sheetServed casefold db workspaceId build project stage)) := by
  have hlines := Tally.tally_map p (·.quantity) ConsumeLineIn.picked lines
  have hpicks := Tally.tally_map p (·.quantity) pickedOf
    (servedPicks (sheetServed casefold db workspaceId build project stage))
  rw [Tally.tally_intCast]
  exact hlines.symm.trans ((Tally.tally_perm p (·.quantity) h.served).trans hpicks)

theorem PicksOf.pick (h : PicksOf casefold db workspaceId build project stage lines)
    {line : ConsumeLineIn} (hline : line ∈ lines) :
    ∃ item ∈ servedPicks (sheetServed casefold db workspaceId build project stage),
      pickedOf item = line.picked :=
  List.mem_map.mp (h.served.mem_iff.mp (List.mem_map_of_mem hline))

theorem servedPicks_stock {item : PickRow × BucketPick}
    (hitem : item ∈ servedPicks (sheetServed casefold db workspaceId build project stage)) :
    item.1 ∈ entryRows db workspaceId project build stage ∧ 0 < item.2.take ∧
      ∃ b ∈ stockOf db workspaceId (sheetPartIds db workspaceId build project stage)
        item.1.part.id, item.2.bucket.key = b.key ∧
          heldAt (poolOf (sheetPools db workspaceId build project stage) item.1.part.id) b.key =
            b.quantity := by
  obtain ⟨hrow, hpos, bucket, hbucket, hkey⟩ := servedPicks_mem casefold _ hitem
  have hrow' := (List.mem_insertionSort _).mp hrow
  have hsound := sheetPools_sound db workspaceId build project stage item.1.part.id
  rw [poolOf_sheetPools, if_pos (List.mem_map_of_mem hrow')] at hbucket hsound
  obtain ⟨b, hb, rfl⟩ := List.mem_map.mp hbucket
  refine ⟨hrow', hpos, b, hb, hkey, ?_⟩
  rw [poolOf_sheetPools, if_pos (List.mem_map_of_mem hrow')]
  exact heldAt_of_mem hsound (List.mem_map_of_mem hb)

theorem BomLine.partRow {entryId : Uuid} {entry : ProjectEntry}
    (h : BomLine db workspaceId project entryId entry part) :
    entry.partId = some part.id ∧ db.part part.id = some part := by
  obtain ⟨id, hid, hpart⟩ := Option.bind_eq_some_iff.mp h.part
  obtain rfl := part_id hpart
  exact ⟨hid, hpart⟩

theorem servedPicks_balance (hunits : UnitsMatch db)
    (hcover : RowsCover db workspaceId project (entryRows db workspaceId project build stage)
      requiredByEntry) {item : PickRow × BucketPick}
    (hitem : item ∈ servedPicks (sheetServed casefold db workspaceId build project stage)) :
    db.part item.1.part.id = some item.1.part ∧
      item.2.bucket.unit = item.1.part.unitOfMeasure ∧
      0 < balance db.stockEntries ⟨workspaceId, some item.1.part.id, item.2.bucket.lotId,
        item.2.bucket.storageLocationId⟩ ∧
      heldAt (poolOf (sheetPools db workspaceId build project stage) item.1.part.id)
        item.2.bucket.key = balance db.stockEntries ⟨workspaceId, some item.1.part.id,
          item.2.bucket.lotId, item.2.bucket.storageLocationId⟩ := by
  obtain ⟨hrow, _, b, hb, hkey, hheld⟩ := servedPicks_stock hitem
  obtain ⟨hbom, hws, _⟩ := hcover.line item.1 hrow
  obtain ⟨_, hpart⟩ := hbom.partRow
  obtain ⟨hunit, hbalance⟩ := stockOf_balance hunits hpart hws hb
  obtain ⟨hpos, _⟩ := stockOf_quantity hb
  have hsame := hkey
  simp only [PickBucket.key, LocationStock.key, Prod.mk.injEq] at hsame
  obtain ⟨hstorage, hlot, hunit'⟩ := hsame
  rw [hstorage, hlot, ← hbalance, hkey]
  exact ⟨hpart, hunit'.trans hunit, hpos, hheld⟩

theorem PicksOf.enough (h : PicksOf casefold db workspaceId build project stage lines)
    (hunits : UnitsMatch db)
    (hcover : RowsCover db workspaceId project (entryRows db workspaceId project build stage)
      requiredByEntry) :
    ∀ line ∈ lines, (demandOn workspaceId lines (line.bucket workspaceId) : Decimal) ≤
      balance db.stockEntries (line.bucket workspaceId) := by
  intro line hline
  obtain ⟨item, hitem, hpicked⟩ := h.pick hline
  obtain ⟨hpart, hunit, _, hheld⟩ := servedPicks_balance hunits hcover hitem
  have hbucket : line.bucket workspaceId = ⟨workspaceId, some item.1.part.id,
      item.2.bucket.lotId, item.2.bucket.storageLocationId⟩ := by
    simp only [pickedOf, SheetPick.picked, sheetPick, ConsumeLineIn.picked,
      PickedLine.mk.injEq] at hpicked
    simp only [ConsumeLineIn.bucket, hpicked]
  have hdemand := h.sum_eq fun p => (⟨workspaceId, some p.partId, p.lotId, p.storageLocationId⟩ :
    Bucket) = line.bucket workspaceId
  -- Under one unit for each part, a bucket of the ledger is one bucket of the pool.
  have hkeys : tally (fun i => (⟨workspaceId, some (pickedOf i).partId, (pickedOf i).lotId,
        (pickedOf i).storageLocationId⟩ : Bucket) = line.bucket workspaceId) (·.2.take)
      (servedPicks (sheetServed casefold db workspaceId build project stage)) =
      tally (fun i => i.1.part.id = item.1.part.id ∧ i.2.bucket.key = item.2.bucket.key) (·.2.take)
        (servedPicks (sheetServed casefold db workspaceId build project stage)) := by
    apply Tally.tally_congr
    · intro i hi
      obtain ⟨hpart', hunit', _⟩ := servedPicks_balance hunits hcover hi
      simp only [hbucket, pickedOf, SheetPick.picked, sheetPick, Bucket.mk.injEq,
        Option.some.injEq, true_and, PickBucket.key, Prod.mk.injEq]
      constructor
      · rintro ⟨hid, hlot, hstorage⟩
        rw [hid, hpart] at hpart'
        have hsame := Option.some.inj hpart'
        exact ⟨hid, hstorage, hlot, by rw [hunit', hunit, hsame]⟩
      · rintro ⟨hid, hstorage, hlot, _⟩
        exact ⟨hid, hlot, hstorage⟩
    · exact fun _ _ _ => rfl
  have hle := servedPicks_le casefold
    ((entryRows db workspaceId project build stage).insertionSort
      fun a b => a.entry.orderIndex ≤ b.entry.orderIndex)
    (sheetPools_sound db workspaceId build project stage) item.1.part.id item.2.bucket.key
  rw [demandOn]
  refine (le_of_eq (hdemand.trans hkeys)).trans (hle.trans ?_)
  rw [hheld, hbucket]

theorem PicksOf.supplies (h : PicksOf casefold db workspaceId build project stage lines)
    (hcover : RowsCover db workspaceId project (entryRows db workspaceId project build stage)
      requiredByEntry) :
    ∀ item ∈ requiredByEntry, item.2 ≤ suppliedFor lines item.1 := by
  intro item hitem
  obtain ⟨row, hrow, hid, hrequired⟩ := hcover.covers item hitem
  have hserved : row ∈ (sheetServed casefold db workspaceId build project stage).map (·.row) := by
    rw [sheetServed, serveRows_rows]
    exact (List.mem_insertionSort _).mpr hrow
  obtain ⟨s, hs, hsrow⟩ := List.mem_map.mp hserved
  have hplanned := pickList_covered casefold db workspaceId build project stage h.covered s hs
  have hpos : ∀ i ∈ servedPicks (sheetServed casefold db workspaceId build project stage),
      0 < i.2.take := fun i hi => (servedPicks_stock hi).2.1
  have htaken := planned_le_servedPicks hpos hs
  have hsupplied := h.sum_eq fun p => p.projectEntryId = item.1
  have hsame : tally (fun i => (pickedOf i).projectEntryId = item.1) (·.2.take)
      (servedPicks (sheetServed casefold db workspaceId build project stage)) =
      tally (fun i => i.1.entry.id = s.row.entry.id) (·.2.take)
        (servedPicks (sheetServed casefold db workspaceId build project stage)) := by
    rw [hsrow, hid]
    rfl
  have hle : (item.2 : Decimal) ≤ (suppliedFor lines item.1 : ℤ) := by
    rw [← hrequired, ← hsrow]
    calc s.row.required ≤ (s.picks.map (·.take)).sum := hplanned
      _ ≤ _ := htaken
      _ = _ := hsame.symm
      _ = _ := hsupplied.symm
  exact_mod_cast hle

theorem PicksOf.accepted (h : PicksOf casefold db workspaceId build project stage lines)
    (hunits : UnitsMatch db) (hrefs : WellReferenced db)
    (hcover : RowsCover db workspaceId project (entryRows db workspaceId project build stage)
      requiredByEntry) :
    ∀ line ∈ lines, LineAccepted db workspaceId (projectEntriesById db workspaceId project)
      requiredByEntry line := by
  intro line hline
  obtain ⟨item, hitem, hpicked⟩ := h.pick hline
  obtain ⟨_, _, hpos, _⟩ := servedPicks_balance hunits hcover hitem
  obtain ⟨hrow, _, _⟩ := servedPicks_stock hitem
  obtain ⟨hbom, _, hkey⟩ := hcover.line item.1 hrow
  have hexists := refsIn_of_balance hrefs.located hrefs.lots (ne_of_gt hpos)
  simp only [pickedOf, SheetPick.picked, sheetPick, ConsumeLineIn.picked,
    PickedLine.mk.injEq] at hpicked
  obtain ⟨hentry, hpart, hlot, hstorage, _⟩ := hpicked
  constructor
  case entry =>
    refine ⟨item.1.entry, hentry ▸ hbom.found, hbom.consumable, hkey, ?_⟩
    rw [← hpart]
    exact hbom.partRow.1
  case refs =>
    rw [← hstorage, ← hlot]
    exact hexists

end Payload

/-- The stage `consume_stage` accepts next. -/
structure IsNext (db : Db) (workspaceId : Uuid) (build : Build) (stage : BuildStage) : Prop where
  row : db.build build.id = some build
  active : build.archivedAt = none
  first : (pendingStages db workspaceId build).head? = some stage

/-- The pass a sheet was made for. -/
def consumePass (ctx : Ctx) (db : Db) (build : Build) (project : Project)
    (stage : Option BuildStage) (payload : ConsumeIn) : Except Err Db :=
  match stage with
  | none => (consume ctx db build project payload).map Prod.snd
  | some stage => (consumeStage ctx db build project stage payload).map Prod.snd

section Consume

variable {ctx : Ctx} {db : Db} {build : Build} {project : Project} {stage : Option BuildStage}
  {payload : ConsumeIn}

theorem PicksOf.something {casefold : String → String} {lines : List ConsumeLineIn}
    {requiredByEntry : List (Uuid × ℤ)}
    (h : PicksOf casefold db ctx.workspaceId build project stage lines) (hlines : lines ≠ [])
    (hcover : RowsCover db ctx.workspaceId project
      (entryRows db ctx.workspaceId project build stage) requiredByEntry) :
    requiredByEntry ≠ [] := by
  obtain ⟨line, hline⟩ := List.exists_mem_of_ne_nil _ hlines
  obtain ⟨item, hitem, _⟩ := h.pick hline
  obtain ⟨hrow, _, _⟩ := servedPicks_stock hitem
  obtain ⟨_, _, hkey⟩ := hcover.line item.1 hrow
  rintro rfl
  cases hkey

/-- A sheet without a short line is a payload the pass goes through with. -/
theorem pickList_consumable (casefold : String → String) (hrefs : WellReferenced db)
    (hbom : BomSound db) (hunits : UnitsMatch db) (hfresh : FreshDraws ctx db)
    (hopen : build.status.isOpen) (hnext : ∀ s ∈ stage, IsNext db ctx.workspaceId build s)
    (hpart : OutputInWorkspace db ctx.workspaceId project)
    (hstorage : payload.outputStorageLocationId = none)
    (hpicks : PicksOf casefold db ctx.workspaceId build project stage payload.lines) :
    ∃ db', consumePass ctx db build project stage payload = .ok db' := by
  cases stage with
  | none =>
    have hcover : RowsCover db ctx.workspaceId project
        (entryRows db ctx.workspaceId project build none)
        (requiredOfBuild db ctx.workspaceId build project) := entryRows_whole hbom
    obtain ⟨result, db', hresult⟩ := consume_enabled hfresh hopen
      (hpicks.accepted hunits hrefs hcover) (hpicks.enough hunits hcover) (hpicks.supplies hcover)
      hpart hstorage
    refine ⟨db', ?_⟩
    rw [consumePass, hresult]
    rfl
  | some stage =>
    have hcover : RowsCover db ctx.workspaceId project
        (entryRows db ctx.workspaceId project build (some stage))
        (requiredOfStage db ctx.workspaceId build project stage.id) := entryRows_stage hbom stage
    obtain ⟨hrow, hactive, hfirst⟩ := hnext stage rfl
    obtain ⟨rest, hpending⟩ : ∃ rest, pendingStages db ctx.workspaceId build = stage :: rest :=
      List.head?_eq_some_iff.mp hfirst
    have hlisted : stage ∈ pendingStages db ctx.workspaceId build :=
      hpending ▸ List.mem_cons_self ..
    obtain ⟨hmem, hnot⟩ := List.mem_filter.mp hlisted
    have hstage := buildStage_of_mem hrefs.staged (mem_listStages.mp hmem).1
    obtain ⟨result, db', hresult⟩ := consumeStage_enabled hfresh hrow hstage hactive hopen
      (by simpa using hnot) (earlier_complete hrefs.staged hpending)
      (hpicks.something payload.linesNonempty hcover) (hpicks.accepted hunits hrefs hcover)
      (hpicks.enough hunits hcover) (hpicks.supplies hcover) hpart hstorage
    refine ⟨db', ?_⟩
    rw [consumePass, hresult]
    rfl

end Consume

/-- Two BOM lines of the same part, with bolts on the shelf and in the drawer. -/
def samplePickDb : Db :=
  runCalls
    { sampleDb with
      projects := [⟨30, 1, none⟩]
      projectEntries := [sampleEntry 40 10 2, sampleEntry 41 10 4] }
    [⟨sampleCtx 1000, .ledger (sampleAdd 10 20 4 false Nat.succ_pos')⟩,
      ⟨sampleCtx 2000, .ledger (sampleAdd 10 21 3 false Nat.succ_pos')⟩,
      ⟨sampleCtx 3000, sampleBuild 1 Nat.one_pos⟩]

def samplePickLine (projectEntryId storageLocationId : Uuid) (quantity : ℕ)
    (h : (0 : ℤ) < quantity) : ConsumeLineIn where
  projectEntryId := projectEntryId
  partId := 10
  quantity := quantity
  lotId := none
  storageLocationId := some storageLocationId
  quantityPos := h

/-- The second line gets the drawer and what the first left on the shelf. -/
def samplePickPayload : ConsumeIn where
  lines := [samplePickLine 41 21 3 (by decide), samplePickLine 40 20 2 (by decide),
    samplePickLine 41 20 1 (by decide)]
  outputStorageLocationId := none
  outputLotName := none
  linesNonempty := List.cons_ne_nil _ _

theorem samplePickDb_bomSound : BomSound samplePickDb := by
  constructor
  case ids => decide +kernel
  case parts =>
    have hparts : ∀ e ∈ samplePickDb.projectEntries,
        ∀ part ∈ e.partId.bind samplePickDb.part, part.workspaceId = e.workspaceId := by
      decide +kernel
    exact fun e he part hpart => hparts e he part hpart

theorem pickList_consumable_sample : ∃ ctx db',
    consumePass ctx samplePickDb sampleStagedBuild ⟨30, 1, none⟩ none samplePickPayload =
      .ok db' := by
  obtain ⟨ctx, hws, hfresh⟩ := exists_freshDraws samplePickDb 1
  have hrefs : WellReferenced samplePickDb := runCalls_wellReferenced (.empty rfl rfl rfl) _
  have hunits : UnitsMatch samplePickDb := by
    have hrows : ∀ e ∈ samplePickDb.stockEntries,
        ∀ part ∈ e.partId.bind samplePickDb.part, e.unit = part.unitOfMeasure := by
      decide +kernel
    exact fun e he part hpart _ => hrows e he part hpart
  have hpicks : PicksOf id samplePickDb ctx.workspaceId sampleStagedBuild ⟨30, 1, none⟩ none
      samplePickPayload.lines := by
    rw [hws]
    constructor
    case covered => decide +kernel
    case lines =>
      have hsame : samplePickPayload.lines.map (·.picked) =
          (pickList id samplePickDb 1 sampleStagedBuild ⟨30, 1, none⟩ none).picked := by
        decide +kernel
      rw [hsame]
  refine ⟨ctx, ?_⟩
  exact pickList_consumable id hrefs samplePickDb_bomSound hunits hfresh (by decide)
    (fun s hs => by cases hs) (fun partId hmem => by cases hmem) rfl hpicks

end StockManager
