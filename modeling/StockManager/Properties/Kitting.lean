import StockManager.Effects.KitRows
import StockManager.Properties.ConsumeCoverage

/-! # Kits top a tray up

A kit moves what the tray lacks of every part, or all there is of it elsewhere.
It makes and loses nothing, and asked for again it has nothing left to move. -/

namespace StockManager

variable {item : Uuid × Decimal} {entryIds : List (Uuid × List Uuid)} {partId : Uuid}
  {line : KitLine}

/-- What a kit asks for of a part. -/
def kitRequired (db : Db) (workspaceId : Uuid) (build : Build) (project : Project)
    (stage : Option BuildStage) (partId : Uuid) : Decimal :=
  (Dict.find partId (requiredByPart db workspaceId build project stage).1).getD 0

/-- The ledger after a kit onto `stagingId`: parts are conserved, the tray is topped up, the
other buckets pay for it, and a kit of the same build writes nothing more. -/
structure KitDone (ctx : Ctx) (db db' : Db) (build : Build) (project : Project)
    (stage : Option BuildStage) (staging : StorageLocation) : Prop where
  onHand : ∀ partId, currentQuantity db' ctx.workspaceId partId none none .onHand false =
    currentQuantity db ctx.workspaceId partId none none .onHand false
  reserved : ∀ partId, reservedQuantity db' ctx.workspaceId partId =
    reservedQuantity db ctx.workspaceId partId
  staged : ∀ partId,
    currentQuantity db' ctx.workspaceId partId (some staging.id) none .onHand false =
      max (currentQuantity db ctx.workspaceId partId (some staging.id) none .onHand false)
        (min (kitRequired db ctx.workspaceId build project stage partId)
          (currentQuantity db ctx.workspaceId partId none none .onHand false))
  elsewhere : ∀ b : Bucket, b.storageLocationId ≠ some staging.id →
    0 ≤ balance db'.stockEntries b ∧ balance db'.stockEntries b ≤ balance db.stockEntries b
  untouched : ∀ partId ∉ Dict.keys (requiredByPart db ctx.workspaceId build project stage).1,
    db'.stockEntries.filter (·.partId = some partId) =
      db.stockEntries.filter (·.partId = some partId)
  again : ∀ ctx' : Ctx, ctx'.workspaceId = ctx.workspaceId →
    ∃ lines, executeKit ctx' db' build project stage staging = .ok (lines, db')

section Demand

variable {db : Db} {workspaceId : Uuid} {build : Build} {project : Project}
  {stage : Option BuildStage}

def kitWanted (db : Db) (workspaceId : Uuid) (build : Build) (project : Project) :
    Option BuildStage → List (Uuid × ℤ)
  | none => requiredOfBuild db workspaceId build project
  | some stage => stageAllocation db workspaceId build project stage.id

theorem kitWanted_entry (h : BomSound db) {item : Uuid × ℤ}
    (hitem : item ∈ kitWanted db workspaceId build project stage) (hpos : 0 < item.2) :
    ∃ e part, Dict.find item.1 (projectEntriesById db workspaceId project) = some e ∧
      e.partId.bind db.part = some part := by
  cases stage with
  | none => exact passRequired_entry h.ids (show item ∈ passRequired db workspaceId build project none from hitem)
  | some stage =>
    have hrequired : item ∈ requiredOfStage db workspaceId build project stage.id :=
      List.mem_filter.mpr ⟨hitem, decide_eq_true hpos⟩
    exact passRequired_entry h.ids (show item ∈ passRequired db workspaceId build project
      (some stage) from hrequired)

theorem mem_kitDemand {item : Uuid × Uuid × Decimal} :
    item ∈ kitDemand db workspaceId build project stage →
      ∃ e ∈ consumableEntries db workspaceId project, e.partId = some item.1 ∧
        0 < (Dict.find e.id (kitWanted db workspaceId build project stage)).getD 0 := by
  intro hitem
  obtain ⟨e, he, hsome⟩ := List.mem_filterMap.mp hitem
  cases hpartId : e.partId with
  | none =>
    simp only [hpartId] at hsome
    cases hsome
  | some partId =>
    simp only [hpartId] at hsome
    change (if (Dict.find e.id (kitWanted db workspaceId build project stage)).getD 0 ≤ 0 then none
      else some (partId, e.id,
        (((Dict.find e.id (kitWanted db workspaceId build project stage)).getD 0 : ℤ) : Decimal))) =
      some item at hsome
    split at hsome
    next => cases hsome
    next hpos =>
      obtain rfl := Option.some.inj hsome
      exact ⟨e, he, hpartId, not_le.mp hpos⟩

theorem kitDemand_part (h : BomSound db) {item : Uuid × Uuid × Decimal}
    (hitem : item ∈ kitDemand db workspaceId build project stage) :
    ∃ part, db.part item.1 = some part ∧ part.workspaceId = workspaceId := by
  obtain ⟨e, he, hpartId, hpos⟩ := mem_kitDemand hitem
  obtain ⟨hmem, _⟩ := mem_consumableEntries.mp he
  cases hfind : Dict.find e.id (kitWanted db workspaceId build project stage) with
  | none => simp [hfind] at hpos
  | some q =>
    rw [hfind, Option.getD_some] at hpos
    obtain ⟨e', part, hfound, hpart⟩ := kitWanted_entry h (Dict.mem_of_find hfind) hpos
    rw [projectEntriesById_find h.ids hmem] at hfound
    obtain rfl := Option.some.inj hfound
    refine ⟨part, ?_, bomPart_workspace h hmem hpart⟩
    rwa [hpartId] at hpart

theorem required_part (h : BomSound db)
    (hitem : item ∈ (requiredByPart db workspaceId build project stage).1) :
    ∃ part, db.part item.1 = some part ∧ part.workspaceId = workspaceId := by
  have hkey : item.1 ∈ Dict.keys (requiredByPart db workspaceId build project stage).1 :=
    List.mem_map_of_mem hitem
  obtain ⟨d, hd, hpart⟩ := Dict.mem_keys_totals.mp hkey
  exact hpart ▸ kitDemand_part h hd

theorem required_keys : (Dict.keys (requiredByPart db workspaceId build project stage).1).Nodup :=
  Dict.nodup_keys_collect (d := []) List.nodup_nil _

theorem kitRequired_item (hitem : item ∈ (requiredByPart db workspaceId build project stage).1) :
    kitRequired db workspaceId build project stage item.1 = item.2 := by
  rw [kitRequired, (Dict.mem_iff_find required_keys).mp hitem, Option.getD_some]

theorem kitRequired_absent
    (h : partId ∉ Dict.keys (requiredByPart db workspaceId build project stage).1) :
    kitRequired db workspaceId build project stage partId = 0 := by
  rw [kitRequired, Dict.find_eq_none.mpr h, Option.getD_none]

end Demand

section Moves

variable {db : Db} {workspaceId : Uuid} {build : Build} {project : Project}
  {stage : Option BuildStage} {staging : StorageLocation}

def offTray (db : Db) (workspaceId partId stagingId : Uuid) : Decimal :=
  heldIn (fun b => (b.workspaceId = workspaceId ∧ b.partId = some partId) ∧
    b.storageLocationId ≠ some stagingId) db.stockEntries

def kitMoved (db : Db) (workspaceId : Uuid) (build : Build) (project : Project)
    (stage : Option BuildStage) (staging : StorageLocation) (partId : Uuid) : Decimal :=
  min (max 0 (kitRequired db workspaceId build project stage partId -
      currentQuantity db workspaceId partId (some staging.id) none .onHand false))
    (offTray db workspaceId partId staging.id)

def kitPlan (db : Db) (workspaceId : Uuid) (build : Build) (project : Project)
    (stage : Option BuildStage) (staging : StorageLocation) : List (Uuid × KitSource) :=
  (planKit db workspaceId build project stage staging).flatMap fun line =>
    line.sources.map fun source => (line.partId, source)

theorem onHand_split (partId stagingId : Uuid) :
    currentQuantity db workspaceId partId none none .onHand false =
      currentQuantity db workspaceId partId (some stagingId) none .onHand false +
        offTray db workspaceId partId stagingId := by
  rw [onHand_heldIn, staged_heldIn, offTray, heldIn,
    Tally.tally_split _ fun e : StockEntry => e.bucket.storageLocationId = some stagingId]
  simp only [heldIn, and_assoc, ne_eq]

theorem kitLine_sources (h : kitLine db workspaceId staging entryIds item = some line) :
    line.partId = item.1 ∧ line.sources =
      if 0 < max 0 (item.2 -
          currentQuantity db workspaceId item.1 (some staging.id) none .onHand false) then
        sourcesFor db workspaceId item.1 staging.id (max 0 (item.2 -
          currentQuantity db workspaceId item.1 (some staging.id) none .onHand false))
      else [] := by
  unfold kitLine at h
  simp only at h
  split at h
  next => cases h
  next =>
    obtain rfl := Option.some.inj h
    exact ⟨rfl, rfl⟩

theorem kitLine_mem (h : kitLine db workspaceId staging entryIds item = some line) :
    ∀ source ∈ line.sources, source.storageLocationId ≠ some staging.id ∧ 0 < source.quantity := by
  intro source hsource
  rw [(kitLine_sources h).2] at hsource
  split at hsource
  next => exact sourcesFor_mem hsource
  next => cases hsource

theorem kitLine_moving (hnonneg : NonNegative db)
    (hitem : item ∈ (requiredByPart db workspaceId build project stage).1)
    (h : kitLine db workspaceId staging entryIds item = some line) :
    line.moving = kitMoved db workspaceId build project stage staging item.1 := by
  rw [KitLine.moving, (kitLine_sources h).2, kitMoved, kitRequired_item hitem]
  split
  next hshort => rw [sourcesFor_sum hnonneg, max_eq_right hshort.le, offTray]
  next hfull =>
    have hzero : max 0 (item.2 -
        currentQuantity db workspaceId item.1 (some staging.id) none .onHand false) = 0 :=
      le_antisymm (not_lt.mp hfull) (le_max_left ..)
    rw [hzero, offTray, min_eq_left (heldIn_nonneg hnonneg _)]
    rfl

theorem kitLine_some (h : BomSound db)
    (hitem : item ∈ (requiredByPart db workspaceId build project stage).1) :
    kitLine db workspaceId staging entryIds item ≠ none := by
  obtain ⟨part, hpart, hws⟩ := required_part h hitem
  have hbelongs : belongs Part.workspaceId workspaceId (db.part item.1) = some part := by
    rw [belongs, hpart]
    exact if_pos (decide_eq_true hws)
  rw [kitLine, hbelongs]
  exact Option.some_ne_none _

theorem mem_kitPlan {m : Uuid × KitSource}
    (h : m ∈ kitPlan db workspaceId build project stage staging) :
    m.1 ∈ Dict.keys (requiredByPart db workspaceId build project stage).1 ∧
      m.2.storageLocationId ≠ some staging.id ∧ 0 < m.2.quantity := by
  obtain ⟨line, hline, hm⟩ := List.mem_flatMap.mp h
  obtain ⟨source, hsource, rfl⟩ := List.mem_map.mp hm
  obtain ⟨item, hitem, hsome⟩ := List.mem_filterMap.mp hline
  refine ⟨?_, kitLine_mem hsome source hsource⟩
  rw [(kitLine_sources hsome).1]
  exact List.mem_map_of_mem hitem

theorem offTray_nonneg (hnonneg : NonNegative db) (partId stagingId : Uuid) :
    0 ≤ offTray db workspaceId partId stagingId := heldIn_nonneg hnonneg _

theorem staged_nonneg (hnonneg : NonNegative db) (partId stagingId : Uuid) :
    0 ≤ currentQuantity db workspaceId partId (some stagingId) none .onHand false := by
  rw [staged_heldIn]
  exact heldIn_nonneg hnonneg _

theorem kitMoved_absent (hnonneg : NonNegative db)
    (h : partId ∉ Dict.keys (requiredByPart db workspaceId build project stage).1) :
    kitMoved db workspaceId build project stage staging partId = 0 := by
  have hstaged : 0 ≤ currentQuantity db workspaceId partId (some staging.id) none .onHand false :=
    staged_nonneg hnonneg ..
  rw [kitMoved, kitRequired_absent h, zero_sub, max_eq_left (by linarith),
    min_eq_left (offTray_nonneg hnonneg ..)]

theorem kitPlan_tally (h : BomSound db) (hnonneg : NonNegative db) (partId : Uuid) :
    tally (fun m : Uuid × KitSource => m.1 = partId) (·.2.quantity)
      (kitPlan db workspaceId build project stage staging) =
      kitMoved db workspaceId build project stage staging partId := by
  have hline : ∀ line : KitLine, tally (fun m : Uuid × KitSource => m.1 = partId)
      (·.2.quantity) (line.sources.map fun source => (line.partId, source)) =
      if line.partId = partId then line.moving else 0 := by
    intro line
    rw [Tally.tally_map]
    split
    next heq => exact Tally.tally_all _ _ fun _ _ => heq
    next hne => exact Tally.tally_eq_zero _ _ fun _ _ => hne
  have hplan : tally (fun m : Uuid × KitSource => m.1 = partId) (·.2.quantity)
      (kitPlan db workspaceId build project stage staging) =
      tally (fun line : KitLine => line.partId = partId) KitLine.moving
        (planKit db workspaceId build project stage staging) := by
    rw [kitPlan, Tally.tally_flatMap]
    induction planKit db workspaceId build project stage staging with
    | nil => rfl
    | cons line lines ih => rw [List.map_cons, List.sum_cons, ih, hline, Tally.tally_cons]
  rw [hplan, planKit, Tally.tally_filterMap (fun item : Uuid × Decimal => item.1 = partId)
    fun item => kitMoved db workspaceId build project stage staging item.1]
  case hsome =>
    intro item hitem line hsome
    exact ⟨by rw [(kitLine_sources hsome).1], kitLine_moving hnonneg hitem hsome⟩
  case hnone => exact fun item hitem hnone => absurd hnone (kitLine_some h hitem)
  by_cases hkey : partId ∈ Dict.keys (requiredByPart db workspaceId build project stage).1
  · obtain ⟨item, hitem, rfl⟩ := List.mem_map.mp hkey
    exact Tally.tally_key _ Prod.fst required_keys hitem
  · rw [kitMoved_absent hnonneg hkey]
    apply Tally.tally_eq_zero
    rintro item hitem rfl
    exact hkey (List.mem_map_of_mem hitem)

theorem executeKit_plan {ctx : Ctx} {lines : List KitLine} {db' : Db}
    (h : executeKit ctx db build project stage staging = .ok (lines, db')) :
    kitMoves ctx db build stage staging
      (kitPlan db ctx.workspaceId build project stage staging) = .ok db' := by
  simp only [executeKit, Outcome.bind_ok, Outcome.pure_ok, Prod.mk.injEq] at h
  obtain ⟨_, _, _, _, _, _, db₁, hmoves, _, rfl⟩ := h
  exact hmoves

theorem executeKit_empty {ctx ctx' : Ctx} {lines : List KitLine} {db₁ db' : Db}
    (h : executeKit ctx db build project stage staging = .ok (lines, db'))
    (hplan : kitPlan db₁ ctx'.workspaceId build project stage staging = []) :
    ∃ lines', executeKit ctx' db₁ build project stage staging = .ok (lines', db₁) := by
  simp only [executeKit, Outcome.bind_ok] at h
  obtain ⟨_, hopen, _, hstatus, _, hstages, _⟩ := h
  refine ⟨planKit db₁ ctx'.workspaceId build project stage staging, ?_⟩
  have hmoves : kitMoves ctx' db₁ build stage staging
      ((planKit db₁ ctx'.workspaceId build project stage staging).flatMap fun line =>
        line.sources.map fun source => (line.partId, source)) = .ok db₁ := by
    change kitMoves ctx' db₁ build stage staging
      (kitPlan db₁ ctx'.workspaceId build project stage staging) = .ok db₁
    rw [hplan]
    rfl
  rw [executeKit, hopen, hstatus, hstages]
  simp only [Outcome.bind_ok, Outcome.pure_ok]
  exact ⟨(), trivial, (), trivial, (), trivial, db₁, hmoves, rfl⟩

end Moves

theorem top_up (S E R : Decimal) (hE : 0 ≤ E) :
    S + min (max 0 (R - S)) E = max S (min R (S + E)) := by
  rcases le_total R S with h | h
  · rw [max_eq_left (sub_nonpos.mpr h), min_eq_left hE, add_zero,
      max_eq_left ((min_le_left ..).trans h)]
  · rw [max_eq_right (sub_nonneg.mpr h), max_eq_right (le_min h (le_add_of_nonneg_right hE)),
      ← min_add_add_left, add_sub_cancel]

theorem top_up_again (S E R : Decimal) (hE : 0 ≤ E) :
    min (max 0 (R - max S (min R (S + E)))) (S + E - max S (min R (S + E))) = 0 := by
  have hT : 0 ≤ S + E - max S (min R (S + E)) :=
    sub_nonneg.mpr (max_le (le_add_of_nonneg_right hE) (min_le_right ..))
  rcases le_total R (S + E) with h | h
  · have hfull : R - max S (min R (S + E)) ≤ 0 := by
      rw [min_eq_left h]
      exact sub_nonpos.mpr (le_max_right ..)
    rw [max_eq_left hfull, min_eq_left hT]
  · rw [min_eq_right h, max_eq_right (le_add_of_nonneg_right hE), sub_self,
      min_eq_right (le_max_left ..)]

section Done

variable {ctx : Ctx} {db : Db} {rows : List StockEntry} {build : Build} {project : Project}
  {stage : Option BuildStage} {staging : StorageLocation}

/-- The rows the moves of a plan write. -/
structure KitWrites (ctx : Ctx) (staging : StorageLocation) (moves : List (Uuid × KitSource))
    (rows : List StockEntry) : Prop where
  row : ∀ e ∈ rows, KitRow ctx.workspaceId moves e
  held : ∀ (p : Bucket → Prop) [DecidablePred p], heldIn p rows =
    tally (fun m => p (trayBucket ctx.workspaceId staging m)) (·.2.quantity) moves -
      tally (fun m => p (sourceBucket ctx.workspaceId m)) (·.2.quantity) moves

theorem kit_onHand (hwrites : KitWrites ctx staging
      (kitPlan db ctx.workspaceId build project stage staging) rows) (partId : Uuid) :
    currentQuantity (db.withLedger (db.stockEntries ++ rows)) ctx.workspaceId partId none none
        .onHand false =
      currentQuantity db ctx.workspaceId partId none none .onHand false := by
  have hsame : heldIn (fun b => b.workspaceId = ctx.workspaceId ∧ b.partId = some partId)
      rows = 0 := by
    rw [hwrites.held]
    exact sub_self _
  rw [onHand_heldIn, onHand_heldIn, Db.withLedger, heldIn_append, hsame, add_zero]

theorem kit_staged (h : BomSound db) (hnonneg : NonNegative db) (hwrites : KitWrites ctx staging
      (kitPlan db ctx.workspaceId build project stage staging) rows) (partId : Uuid) :
    currentQuantity (db.withLedger (db.stockEntries ++ rows)) ctx.workspaceId partId
        (some staging.id) none .onHand false =
      max (currentQuantity db ctx.workspaceId partId (some staging.id) none .onHand false)
        (min (kitRequired db ctx.workspaceId build project stage partId)
          (currentQuantity db ctx.workspaceId partId none none .onHand false)) := by
  have htray : tally (fun m : Uuid × KitSource =>
      ((trayBucket ctx.workspaceId staging m).workspaceId = ctx.workspaceId ∧
        (trayBucket ctx.workspaceId staging m).partId = some partId) ∧
        (trayBucket ctx.workspaceId staging m).storageLocationId = some staging.id)
      (·.2.quantity) (kitPlan db ctx.workspaceId build project stage staging) =
      kitMoved db ctx.workspaceId build project stage staging partId := by
    rw [← kitPlan_tally h hnonneg]
    apply Tally.tally_congr
    · intro m _
      simp [trayBucket]
    · exact fun _ _ _ => rfl
  have hsource : tally (fun m : Uuid × KitSource =>
      ((sourceBucket ctx.workspaceId m).workspaceId = ctx.workspaceId ∧
        (sourceBucket ctx.workspaceId m).partId = some partId) ∧
        (sourceBucket ctx.workspaceId m).storageLocationId = some staging.id)
      (·.2.quantity) (kitPlan db ctx.workspaceId build project stage staging) = 0 := by
    apply Tally.tally_eq_zero
    intro m hm hat
    exact (mem_kitPlan hm).2.1 hat.2
  rw [onHand_split partId staging.id, ← top_up _ _ _ (offTray_nonneg hnonneg ..), staged_heldIn,
    Db.withLedger, heldIn_append, hwrites.held, htray, hsource, sub_zero, ← staged_heldIn, kitMoved]

theorem kit_elsewhere (hwrites : KitWrites ctx staging
      (kitPlan db ctx.workspaceId build project stage staging) rows) {b : Bucket}
    (hb : b.storageLocationId ≠ some staging.id) :
    balance (db.stockEntries ++ rows) b ≤ balance db.stockEntries b := by
  have hheld : heldIn (· = b) rows = 0 - tally (fun m => sourceBucket ctx.workspaceId m = b)
      (·.2.quantity) (kitPlan db ctx.workspaceId build project stage staging) := by
    rw [hwrites.held, Tally.tally_eq_zero]
    intro m _ htray
    exact hb (htray ▸ rfl)
  have hpaid : 0 ≤ tally (fun m => sourceBucket ctx.workspaceId m = b) (·.2.quantity)
      (kitPlan db ctx.workspaceId build project stage staging) :=
    Tally.tally_nonneg _ _ fun m hm _ => (mem_kitPlan hm).2.2.le
  change heldIn (· = b) (db.stockEntries ++ rows) ≤ heldIn (· = b) db.stockEntries
  rw [heldIn_append, hheld]
  linarith

theorem kit_reserved {moves : List (Uuid × KitSource)} (hwrites : KitWrites ctx staging moves rows)
    (partId : Uuid) :
    reservedQuantity (db.withLedger (db.stockEntries ++ rows)) ctx.workspaceId partId =
      reservedQuantity db ctx.workspaceId partId := by
  have hnone : tally (fun e : StockEntry => e.workspaceId = ctx.workspaceId ∧
      e.partId = some partId ∧ e.status = .reserved) (·.quantityDelta) rows = 0 := by
    apply Tally.tally_eq_zero
    intro e he hreserved
    rw [(hwrites.row e he).status] at hreserved
    exact absurd hreserved.2.2 (by decide)
  rw [reservedQuantity, Db.withLedger, Tally.tally_append, hnone, add_zero]
  rfl

theorem kit_untouched (hwrites : KitWrites ctx staging
      (kitPlan db ctx.workspaceId build project stage staging) rows)
    (h : partId ∉ Dict.keys (requiredByPart db ctx.workspaceId build project stage).1) :
    (db.stockEntries ++ rows).filter (·.partId = some partId) =
      db.stockEntries.filter (·.partId = some partId) := by
  have hnone : rows.filter (·.partId = some partId) = [] := by
    apply List.filter_eq_nil_iff.mpr
    intro e he hpart
    obtain ⟨m, hm, hkey⟩ := (hwrites.row e he).part
    rw [hkey, decide_eq_true_eq, Option.some.injEq] at hpart
    exact h (hpart ▸ (mem_kitPlan hm).1)
  rw [List.filter_append, hnone, List.append_nil]

theorem kit_again (h : BomSound db) (hnonneg : NonNegative db)
    (hnonneg' : NonNegative (db.withLedger (db.stockEntries ++ rows)))
    (hwrites : KitWrites ctx staging
      (kitPlan db ctx.workspaceId build project stage staging) rows) :
    kitPlan (db.withLedger (db.stockEntries ++ rows)) ctx.workspaceId build project stage
      staging = [] := by
  apply List.eq_nil_iff_forall_not_mem.mpr
  intro m hm
  have hzero : kitMoved (db.withLedger (db.stockEntries ++ rows)) ctx.workspaceId build project
      stage staging m.1 = 0 := by
    have hoff : offTray (db.withLedger (db.stockEntries ++ rows)) ctx.workspaceId m.1 staging.id =
        currentQuantity db ctx.workspaceId m.1 none none .onHand false -
          currentQuantity (db.withLedger (db.stockEntries ++ rows)) ctx.workspaceId m.1
            (some staging.id) none .onHand false := by
      rw [← kit_onHand hwrites, onHand_split m.1 staging.id, add_sub_cancel_left]
    rw [kitMoved, hoff, kit_staged h hnonneg hwrites, onHand_split m.1 staging.id]
    exact top_up_again _ _ _ (offTray_nonneg hnonneg ..)
  have hbom : BomSound (db.withLedger (db.stockEntries ++ rows)) := ⟨h.ids, h.parts⟩
  have hle : m.2.quantity ≤ 0 := by
    rw [← hzero, ← kitPlan_tally hbom hnonneg']
    exact Tally.le_tally (fun m' : Uuid × KitSource => m'.1 = m.1) (·.2.quantity)
      (fun m' hm' _ => (mem_kitPlan hm').2.2.le) hm rfl
  exact absurd (mem_kitPlan hm).2.2 (not_lt.mpr hle)

/-- Wherever a kit succeeds on non-negative buckets it is a conserving top-up, and a second one
writes nothing. -/
theorem executeKit_done {ctx : Ctx} {db db' : Db} {build : Build} {project : Project}
    {stage : Option BuildStage} {staging : StorageLocation} {lines : List KitLine}
    (hbom : BomSound db) (hnonneg : NonNegative db)
    (hkit : executeKit ctx db build project stage staging = .ok (lines, db')) :
    KitDone ctx db db' build project stage staging := by
  obtain ⟨rows, rfl, hrow, hheld⟩ := kitMoves_rows (executeKit_plan hkit)
  have hwrites : KitWrites ctx staging
      (kitPlan db ctx.workspaceId build project stage staging) rows := ⟨hrow, hheld⟩
  have hnonneg' : NonNegative (db.withLedger (db.stockEntries ++ rows)) := by
    have hchain : StockChain (fun _ _ _ => False) db (db.withLedger (db.stockEntries ++ rows)) :=
      executeKit_chain hkit
    exact ledgerChain_invariant (fun _ _ => ledgerStep_nonNegative) hchain.ledger hnonneg
  constructor
  case onHand => exact kit_onHand hwrites
  case reserved => exact kit_reserved hwrites
  case staged => exact kit_staged hbom hnonneg hwrites
  case elsewhere => exact fun b hb => ⟨hnonneg' b, kit_elsewhere hwrites hb⟩
  case untouched => exact fun partId hpart => kit_untouched hwrites hpart
  case again =>
    intro ctx' hws
    apply executeKit_empty hkit
    rw [hws]
    exact kit_again hbom hnonneg hnonneg' hwrites

end Done

/-- Six bolts are needed, three lie on the tray, three come off the shelf. -/
theorem executeKit_done_sample : ∃ db',
    currentQuantity db' 1 10 (some 21) none .onHand false = 6 ∧
      KitDone (sampleCtx 9000) samplePickDb db' sampleStagedBuild ⟨30, 1, none⟩ none
        (sampleStorage 21 "drawer" true) := by
  have hnonneg : NonNegative samplePickDb :=
    runCalls_nonNegative (fun _ => le_of_eq rfl) _
  have hquantity : (executeKit (sampleCtx 9000) samplePickDb sampleStagedBuild ⟨30, 1, none⟩ none
      (sampleStorage 21 "drawer" true)).toOption.map
        (fun result => currentQuantity result.2 1 10 (some 21) none .onHand false) = some 6 := by
    decide +kernel
  obtain ⟨⟨lines, db'⟩, hkit, hstaged⟩ := Option.map_eq_some_iff.mp hquantity
  exact ⟨db', hstaged,
    executeKit_done samplePickDb_bomSound hnonneg (Outcome.toOption_eq_some.mp hkit)⟩

end StockManager
