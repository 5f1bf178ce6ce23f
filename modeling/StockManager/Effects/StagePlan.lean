import StockManager.Effects.StageOrder
import StockManager.Library.Assignment

/-! # Planning the pending stages

What the pending stages still take of each part, the whole units its buckets
hold, and a plan that draws the one from the other. -/

namespace StockManager

section Defs

variable (db : Db) (workspaceId : Uuid) (build : Build) (project : Project)

def pendingStages : List BuildStage :=
  (listStages db workspaceId build).filter fun s => s.status ≠ .complete

/-- The part a BOM entry consumes. -/
def entryPart (entryId : Uuid) : Option Uuid :=
  (Dict.find entryId (projectEntriesById db workspaceId project)).bind (·.partId)

/-- What a stage requires of one part, over all its BOM lines. -/
def stageNeed (stageId partId : Uuid) : ℤ :=
  tally (fun item => entryPart db workspaceId project item.1 = some partId) (·.2)
    (requiredOfStage db workspaceId build project stageId)

def remainingNeed (partId : Uuid) : ℤ :=
  ((pendingStages db workspaceId build).map fun s =>
    stageNeed db workspaceId build project s.id partId).sum

/-- The whole units that lie in the buckets of a part. -/
def availableUnits (partId : Uuid) : ℕ :=
  ((stockSummaryForPart db workspaceId partId .onHand).map fun row => ⌊row.quantity⌋.toNat).sum

/-- Of every part the buckets hold what the pending stages still take. -/
def StockSuffices : Prop :=
  ∀ partId, remainingNeed db workspaceId build project partId ≤
    availableUnits db workspaceId partId

def stageUnits (stageId : Uuid) : List (Uuid × Uuid) :=
  (requiredOfStage db workspaceId build project stageId).flatMap fun item =>
    List.replicate item.2.toNat (stageId, item.1)

def pendingUnits : List (Uuid × Uuid) :=
  (pendingStages db workspaceId build).flatMap fun s =>
    stageUnits db workspaceId build project s.id

def partBuckets : Option Uuid → Finset Bucket
  | none => ∅
  | some partId => ((stockSummaryForPart db workspaceId partId .onHand).map fun row =>
      (⟨workspaceId, some partId, row.lotId, row.storageLocationId⟩ : Bucket)).toFinset

def bucketUnits (b : Bucket) : ℕ := ⌊balance db.stockEntries b⌋.toNat

end Defs

section Supply

variable {db : Db} {workspaceId partId : Uuid}

theorem stockSummaryForPart_balance {row : PartStockRow}
    (h : row ∈ stockSummaryForPart db workspaceId partId .onHand) :
    row.quantity =
      balance db.stockEntries ⟨workspaceId, some partId, row.lotId, row.storageLocationId⟩ := by
  simp only [stockSummaryForPart, List.mem_filterMap] at h
  obtain ⟨⟨⟨storageId, lotId⟩, q⟩, hmem, hrow⟩ := h
  split at hrow
  next =>
    obtain rfl := Option.some.inj hrow
    rw [(Dict.mem_totals.mp hmem).2]
    simp only
    rw [Tally.tally_filter]
    apply Tally.tally_congr
    · intro e _
      simp only [StockEntry.bucket, Bucket.mk.injEq, Prod.mk.injEq]
      tauto
    · exact fun _ _ _ => rfl
  next => cases hrow

theorem stockSummaryForPart_nodup (db : Db) (workspaceId partId : Uuid) :
    ((stockSummaryForPart db workspaceId partId .onHand).map fun row =>
      (row.storageLocationId, row.lotId)).Nodup := by
  have hkeys : (Dict.keys (Dict.totals (fun e : StockEntry => (e.storageLocationId, e.lotId))
      (·.quantityDelta) (db.stockEntries.filter fun e => e.workspaceId = workspaceId ∧
        e.partId = some partId ∧ e.status = .onHand))).Nodup :=
    Dict.nodup_keys_collect (d := []) List.nodup_nil _
  refine (map_filterMap_sublist ?_ _).nodup hkeys
  rintro ⟨⟨storageId, lotId⟩, q⟩ row hrow
  split at hrow
  next =>
    obtain rfl := Option.some.inj hrow
    rfl
  next => cases hrow

theorem sum_bucketUnits : ∑ b ∈ partBuckets db workspaceId (some partId), bucketUnits db b =
    availableUnits db workspaceId partId := by
  have hnodup : ((stockSummaryForPart db workspaceId partId .onHand).map fun row =>
      (⟨workspaceId, some partId, row.lotId, row.storageLocationId⟩ : Bucket)).Nodup := by
    have hkeys := stockSummaryForPart_nodup db workspaceId partId
    refine List.Nodup.of_map (fun b : Bucket => (b.storageLocationId, b.lotId)) ?_
    rw [List.map_map]
    exact hkeys
  rw [partBuckets, List.sum_toFinset _ hnodup, List.map_map, availableUnits]
  congr 1
  refine List.map_congr_left ?_
  intro row hrow
  simp only [Function.comp_apply, bucketUnits, stockSummaryForPart_balance hrow]

theorem mem_partBuckets {k : Option Uuid} {b : Bucket} (h : b ∈ partBuckets db workspaceId k) :
    b.workspaceId = workspaceId ∧ b.partId = k ∧ k.isSome := by
  cases k with
  | none => simp [partBuckets] at h
  | some partId =>
    rw [partBuckets, List.mem_toFinset, List.mem_map] at h
    obtain ⟨row, _, rfl⟩ := h
    exact ⟨rfl, rfl, rfl⟩

end Supply

section Demand

variable {db : Db} {workspaceId : Uuid} {build : Build} {project : Project}

theorem requiredOfStage_item {stageId : Uuid} {item : Uuid × ℤ}
    (h : item ∈ requiredOfStage db workspaceId build project stageId) : 0 < item.2 ∧
      ∃ entry part, BomLine db workspaceId project item.1 entry part := by
  obtain ⟨hmem, hpos⟩ := List.mem_filter.mp h
  refine ⟨by simpa using hpos, ?_⟩
  have hfind := (Dict.mem_iff_find (stageAllocation_nodup stageId)).mp hmem
  rw [find_stageAllocation] at hfind
  unfold slicesOf entrySlices at hfind
  split at hfind
  next => cases hfind
  next entry hentry =>
    split at hfind
    next hconsumable =>
      split at hfind
      next => cases hfind
      next part hpart => exact ⟨entry, part, hentry, hconsumable, hpart⟩
    next => cases hfind

theorem requiredOfStage_nodup (db : Db) (workspaceId : Uuid) (build : Build) (project : Project)
    (stageId : Uuid) :
    (Dict.keys (requiredOfStage db workspaceId build project stageId)).Nodup :=
  (List.filter_sublist.map _).nodup (stageAllocation_nodup stageId)

theorem BomLine.entryPart {entryId : Uuid} {entry : ProjectEntry} {part : Part}
    (h : BomLine db workspaceId project entryId entry part) :
    StockManager.entryPart db workspaceId project entryId = entry.partId := by
  rw [StockManager.entryPart, h.found]
  rfl

theorem requiredOfStage_part {stageId : Uuid} {item : Uuid × ℤ}
    (h : item ∈ requiredOfStage db workspaceId build project stageId) :
    (entryPart db workspaceId project item.1).isSome := by
  obtain ⟨entry, part, hbom⟩ := (requiredOfStage_item h).2
  rw [hbom.entryPart]
  exact hbom.consumable.2.2

theorem stageUnits_part (stageId partId : Uuid) :
    ((stageUnits db workspaceId build project stageId).countP
      (fun unit => entryPart db workspaceId project unit.2 = some partId) : ℤ) =
        stageNeed db workspaceId build project stageId partId := by
  have hpos : ∀ item ∈ requiredOfStage db workspaceId build project stageId, 0 < item.2 :=
    fun item h => (requiredOfStage_item h).1
  rw [stageUnits, stageNeed]
  generalize requiredOfStage db workspaceId build project stageId = items at hpos ⊢
  induction items with
  | nil => rfl
  | cons item items ih =>
    have hitem := hpos item (List.mem_cons_self ..)
    have hrest := ih fun i hi => hpos i (List.mem_cons_of_mem _ hi)
    rw [List.flatMap_cons, List.countP_append, Tally.tally_cons, Nat.cast_add, hrest,
      List.countP_replicate]
    congr 1
    by_cases hpart : entryPart db workspaceId project item.1 = some partId
    · simp only [hpart, decide_true, if_true]
      omega
    · simp [hpart]

theorem pendingUnits_part (partId : Uuid) :
    ((pendingUnits db workspaceId build project).countP
      (fun unit => entryPart db workspaceId project unit.2 = some partId) : ℤ) =
        remainingNeed db workspaceId build project partId := by
  rw [pendingUnits, remainingNeed]
  induction pendingStages db workspaceId build with
  | nil => rfl
  | cons s stages ih =>
    rw [List.flatMap_cons, List.countP_append, Nat.cast_add, ih, stageUnits_part, List.map_cons,
      List.sum_cons]

theorem mem_stageUnits {stageId : Uuid} {unit : Uuid × Uuid}
    (h : unit ∈ stageUnits db workspaceId build project stageId) : unit.1 = stageId ∧
      unit.2 ∈ Dict.keys (requiredOfStage db workspaceId build project stageId) := by
  obtain ⟨item, hitem, hunit⟩ := List.mem_flatMap.mp h
  obtain rfl := List.eq_of_mem_replicate hunit
  exact ⟨rfl, List.mem_map_of_mem hitem⟩

theorem mem_pendingUnits {unit : Uuid × Uuid}
    (h : unit ∈ pendingUnits db workspaceId build project) :
    ∃ s ∈ pendingStages db workspaceId build, unit.1 = s.id ∧
      unit.2 ∈ Dict.keys (requiredOfStage db workspaceId build project s.id) := by
  obtain ⟨s, hs, hunit⟩ := List.mem_flatMap.mp h
  exact ⟨s, hs, mem_stageUnits hunit⟩

theorem pendingUnits_entry (hw : WellStaged db) {s : BuildStage}
    (hs : s ∈ pendingStages db workspaceId build) {item : Uuid × ℤ}
    (hitem : item ∈ requiredOfStage db workspaceId build project s.id) :
    ((pendingUnits db workspaceId build project).countP (fun unit => unit = (s.id, item.1)) : ℤ) =
      item.2 := by
  have hids : ((pendingStages db workspaceId build).map (·.id)).Nodup :=
    (List.filter_sublist.map _).nodup (listStages_ids hw)
  have hstage : (pendingUnits db workspaceId build project).countP
      (fun unit => unit = (s.id, item.1)) =
        (stageUnits db workspaceId build project s.id).countP (fun unit => unit = (s.id, item.1)) :=
    Tally.countP_flatMap_group _ _ (List.Nodup.of_map _ hids) hs (by
      intro t ht hne
      rw [List.countP_eq_zero]
      intro unit hunit
      have hid : t.id ≠ s.id := fun heq => hne (List.inj_on_of_nodup_map hids ht hs heq)
      have hfst := (mem_stageUnits hunit).1
      simp only [decide_eq_true_eq]
      rintro rfl
      exact hid hfst.symm)
  have hkeys := requiredOfStage_nodup db workspaceId build project s.id
  have hentry : (stageUnits db workspaceId build project s.id).countP
      (fun unit => unit = (s.id, item.1)) =
        (List.replicate item.2.toNat (s.id, item.1)).countP (fun unit => unit = (s.id, item.1)) :=
    Tally.countP_flatMap_group _ _ (List.Nodup.of_map _ hkeys) hitem (by
      intro other hother hne
      have hkey : other.1 ≠ item.1 :=
        fun heq => hne (List.inj_on_of_nodup_map hkeys hother hitem heq)
      rw [List.countP_replicate]
      simp [hkey])
  have hpos := (requiredOfStage_item hitem).1
  rw [hstage, hentry, List.countP_replicate]
  simp only [decide_true, if_true]
  omega

theorem stockSuffices_of_parts (parts : List Uuid)
    (hparts : ∀ s ∈ pendingStages db workspaceId build,
      ∀ item ∈ requiredOfStage db workspaceId build project s.id,
        ∃ partId ∈ parts, entryPart db workspaceId project item.1 = some partId)
    (h : ∀ partId ∈ parts, remainingNeed db workspaceId build project partId ≤
      availableUnits db workspaceId partId) : StockSuffices db workspaceId build project := by
  intro partId
  by_cases hmem : partId ∈ parts
  · exact h partId hmem
  · have hzero : ∀ s ∈ pendingStages db workspaceId build,
        stageNeed db workspaceId build project s.id partId = 0 := by
      intro s hs
      apply Tally.tally_eq_zero
      intro item hitem hpart
      obtain ⟨q, hq, hpartOf⟩ := hparts s hs item hitem
      obtain rfl : q = partId := Option.some.inj (hpartOf.symm.trans hpart)
      exact hmem hq
    rw [remainingNeed, List.map_congr_left hzero]
    simp

/-- Where the stock suffices, a plan fills all pending stages. -/
theorem exists_stagePlan (h : StockSuffices db workspaceId build project) :
    ∃ plan, Assignment.Fills (fun unit : Uuid × Uuid => entryPart db workspaceId project unit.2)
      (partBuckets db workspaceId) (bucketUnits db) (pendingUnits db workspaceId build project)
      plan := by
  apply Assignment.exists_fills
  · intro k j b hk hj
    exact (mem_partBuckets hk).2.1.symm.trans (mem_partBuckets hj).2.1
  · intro k
    cases k with
    | none =>
      have hzero : (pendingUnits db workspaceId build project).countP
          (fun unit => entryPart db workspaceId project unit.2 = none) = 0 := by
        rw [List.countP_eq_zero]
        intro unit hunit
        obtain ⟨s, _, _, hkey⟩ := mem_pendingUnits hunit
        obtain ⟨item, hitem, hfst⟩ := List.mem_map.mp hkey
        have hsome := requiredOfStage_part hitem
        rw [hfst] at hsome
        simpa [Option.isSome_iff_ne_none] using hsome
      rw [hzero]
      exact Nat.zero_le _
    | some partId =>
      have hneed := h partId
      rw [← pendingUnits_part, Nat.cast_le] at hneed
      rw [sum_bucketUnits]
      exact hneed

end Demand

end StockManager
