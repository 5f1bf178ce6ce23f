import StockManager.Effects.Balance

/-! # Rows of a kit (domain/builds/kitting.py)

What the moves of a kit do to every sum over buckets, and what the sources of a
line hold together. -/

namespace StockManager

def heldIn (p : Bucket → Prop) [DecidablePred p] (rows : List StockEntry) : Decimal :=
  tally (fun e => e.status = .onHand ∧ p e.bucket) (·.quantityDelta) rows

section Held

variable (p : Bucket → Prop) [DecidablePred p]

theorem heldIn_append (a b : List StockEntry) : heldIn p (a ++ b) = heldIn p a + heldIn p b :=
  Tally.tally_append ..

theorem heldIn_pair {outEntry inEntry : StockEntry} {quantity : Decimal}
    (hout : outEntry.status = .onHand) (hin : inEntry.status = .onHand)
    (houtDelta : outEntry.quantityDelta = -quantity) (hinDelta : inEntry.quantityDelta = quantity) :
    heldIn p [outEntry, inEntry] = (if p inEntry.bucket then quantity else 0) -
      if p outEntry.bucket then quantity else 0 := by
  rw [heldIn, Tally.tally_cons, Tally.tally_singleton, hout, hin, houtDelta, hinDelta]
  simp only [true_and]
  split <;> split <;> ring

end Held

def sourceBucket (workspaceId : Uuid) (m : Uuid × KitSource) : Bucket :=
  ⟨workspaceId, some m.1, m.2.lotId, m.2.storageLocationId⟩

def trayBucket (workspaceId : Uuid) (staging : StorageLocation) (m : Uuid × KitSource) : Bucket :=
  ⟨workspaceId, some m.1, m.2.lotId, some staging.id⟩

/-- Every row is on hand and of a part that is moved. -/
structure KitRow (workspaceId : Uuid) (moves : List (Uuid × KitSource)) (e : StockEntry) :
    Prop where
  status : e.status = .onHand
  workspace : e.workspaceId = workspaceId
  part : ∃ m ∈ moves, e.partId = some m.1

theorem kitMoves_rows {ctx : Ctx} {db db' : Db} {build : Build} {stage : Option BuildStage}
    {staging : StorageLocation} {moves : List (Uuid × KitSource)}
    (h : kitMoves ctx db build stage staging moves = .ok db') :
    ∃ rows, db' = { db with stockEntries := db.stockEntries ++ rows } ∧
      (∀ e ∈ rows, KitRow ctx.workspaceId moves e) ∧
      ∀ (p : Bucket → Prop) [DecidablePred p], heldIn p rows =
        tally (fun m => p (trayBucket ctx.workspaceId staging m)) (·.2.quantity) moves -
          tally (fun m => p (sourceBucket ctx.workspaceId m)) (·.2.quantity) moves := by
  induction moves generalizing ctx db with
  | nil =>
    simp only [kitMoves, Except.ok.injEq] at h
    subst h
    refine ⟨[], by simp, by simp, ?_⟩
    intro p _
    rw [Tally.tally_nil, Tally.tally_nil, sub_zero]
    rfl
  | cons m moves ih =>
    obtain ⟨partId, source⟩ := m
    simp only [kitMoves, Outcome.bind_ok, Prod.exists] at h
    obtain ⟨outEntry, inEntry, db₁, hmove, hrest⟩ := h
    obtain ⟨rfl, hpair⟩ := moveQuantity_rows hmove
    obtain ⟨rows, hdb, hrows, hheld⟩ := ih hrest
    have hin : inEntry.bucket = trayBucket ctx.workspaceId staging (partId, source) := by
      rw [hpair.inBucket, if_pos rfl]
      rfl
    have hout : outEntry.bucket = sourceBucket ctx.workspaceId (partId, source) := hpair.outBucket
    refine ⟨[outEntry, inEntry] ++ rows, ?_, ?_, ?_⟩
    · rw [hdb]
      simp
    · intro e he
      rcases List.mem_append.mp he with he | he
      · have hbucket : e.status = .onHand ∧ e.workspaceId = ctx.workspaceId ∧
            e.partId = some partId := by
          rcases List.mem_pair.mp he with rfl | rfl
          · exact ⟨hpair.outStatus, congrArg Bucket.workspaceId hout, congrArg Bucket.partId hout⟩
          · exact ⟨hpair.inStatus, congrArg Bucket.workspaceId hin, congrArg Bucket.partId hin⟩
        exact ⟨hbucket.1, hbucket.2.1, _, List.mem_cons_self .., hbucket.2.2⟩
      · obtain ⟨hstatus, hws, m, hm, hpart⟩ := hrows e he
        exact ⟨hstatus, hws, m, List.mem_cons_of_mem _ hm, hpart⟩
    · intro p _
      have hrest' := hheld p
      simp only [Ctx.child_workspaceId] at hrest'
      rw [heldIn_append, heldIn_pair p hpair.outStatus hpair.inStatus hpair.outDelta hpair.inDelta,
        hrest', Tally.tally_cons, Tally.tally_cons, hin, hout]
      exact (add_sub_add_comm _ _ _ _).symm

section Part

variable {db : Db} {workspaceId partId : Uuid}

theorem currentQuantity_all (status : StockStatus) :
    currentQuantity db workspaceId partId none none status false =
      tally (fun e => e.workspaceId = workspaceId ∧ e.partId = some partId ∧ e.status = status)
        (·.quantityDelta) db.stockEntries := by
  apply Tally.tally_congr
  · intro e _
    simp
  · exact fun _ _ _ => rfl

theorem onHand_heldIn : currentQuantity db workspaceId partId none none .onHand false =
    heldIn (fun b => b.workspaceId = workspaceId ∧ b.partId = some partId) db.stockEntries := by
  rw [currentQuantity_all]
  apply Tally.tally_congr
  · intro e _
    simp only [StockEntry.bucket]
    tauto
  · exact fun _ _ _ => rfl

theorem staged_heldIn (stagingId : Uuid) :
    currentQuantity db workspaceId partId (some stagingId) none .onHand false =
      heldIn (fun b => (b.workspaceId = workspaceId ∧ b.partId = some partId) ∧
        b.storageLocationId = some stagingId) db.stockEntries := by
  apply Tally.tally_congr
  · intro e _
    simp only [StockEntry.bucket, Bool.false_eq_true, if_false, reduceCtorEq, false_or, true_or,
      and_true]
    tauto
  · exact fun _ _ _ => rfl

theorem heldIn_nonneg (hnonneg : NonNegative db) (p : Bucket → Prop) [DecidablePred p] :
    0 ≤ heldIn p db.stockEntries := by
  let buckets := (db.stockEntries.map StockEntry.bucket).dedup
  have hgroups := Tally.tally_fiberwise (fun e : StockEntry => e.status = .onHand ∧ p e.bucket)
    (·.quantityDelta) StockEntry.bucket (List.nodup_dedup _ : buckets.Nodup) db.stockEntries
  have hall : heldIn p db.stockEntries =
      tally (fun e => (e.status = .onHand ∧ p e.bucket) ∧ e.bucket ∈ buckets) (·.quantityDelta)
        db.stockEntries := by
    apply Tally.tally_congr
    · intro e he
      exact (and_iff_left (List.mem_dedup.mpr (List.mem_map_of_mem he))).symm
    · exact fun _ _ _ => rfl
  rw [hall, ← hgroups]
  apply List.sum_nonneg
  intro x hx
  obtain ⟨b, _, rfl⟩ := List.mem_map.mp hx
  by_cases hb : p b
  · have hbalance : tally (fun e : StockEntry => (e.status = .onHand ∧ p e.bucket) ∧ e.bucket = b)
        (·.quantityDelta) db.stockEntries = balance db.stockEntries b := by
      apply Tally.tally_congr
      · intro e _
        constructor
        · rintro ⟨⟨hstatus, _⟩, rfl⟩
          exact ⟨hstatus, rfl⟩
        · rintro ⟨hstatus, rfl⟩
          exact ⟨⟨hstatus, hb⟩, rfl⟩
      · exact fun _ _ _ => rfl
    rw [hbalance]
    exact hnonneg b
  · apply le_of_eq
    symm
    apply Tally.tally_eq_zero
    rintro e _ ⟨⟨_, hp⟩, rfl⟩
    exact hb hp

end Part

section Sources

variable {db : Db} {workspaceId partId stagingId : Uuid}

theorem stockSummary_quantity {row : PartStockRow}
    (h : row ∈ stockSummaryForPart db workspaceId partId .onHand) : row.quantity ≠ 0 ∧
      row.quantity = balance db.stockEntries
        ⟨workspaceId, some partId, row.lotId, row.storageLocationId⟩ := by
  simp only [stockSummaryForPart, List.mem_filterMap] at h
  obtain ⟨⟨⟨storageId, lotId⟩, quantity⟩, hitem, hrow⟩ := h
  split at hrow
  next hne =>
    obtain rfl := Option.some.inj hrow
    refine ⟨hne, ?_⟩
    rw [(Dict.mem_totals.mp hitem).2, Tally.tally_filter]
    apply Tally.tally_congr
    · intro e _
      simp only [StockEntry.bucket, Bucket.mk.injEq, Prod.mk.injEq]
      tauto
    · exact fun _ _ _ => rfl
  next => cases hrow

theorem kitBuckets_sum (hnonneg : NonNegative db) :
    (((stockSummaryForPart db workspaceId partId .onHand).filter fun row =>
      row.storageLocationId ≠ some stagingId ∧ 0 < row.quantity).map (·.quantity)).sum =
      heldIn (fun b => (b.workspaceId = workspaceId ∧ b.partId = some partId) ∧
        b.storageLocationId ≠ some stagingId) db.stockEntries := by
  change tally (fun row : PartStockRow =>
    row.storageLocationId ≠ some stagingId ∧ 0 < row.quantity) (·.quantity) _ = _
  have hpositive : tally (fun row : PartStockRow =>
        row.storageLocationId ≠ some stagingId ∧ 0 < row.quantity) (·.quantity)
        (stockSummaryForPart db workspaceId partId .onHand) =
      tally (fun row => row.storageLocationId ≠ some stagingId) (·.quantity)
        (stockSummaryForPart db workspaceId partId .onHand) := by
    apply Tally.tally_congr
    · intro row hrow
      obtain ⟨hne, hbalance⟩ := stockSummary_quantity hrow
      exact and_iff_left (lt_of_le_of_ne (hbalance ▸ hnonneg _) (Ne.symm hne))
    · exact fun _ _ _ => rfl
  rw [hpositive, stockSummaryForPart, Tally.tally_filterMap
    (fun item : (Option Uuid × Option Uuid) × Decimal => item.1.1 ≠ some stagingId) Prod.snd]
  case hsome =>
    intro item _ row hrow
    split at hrow
    next => exact Option.some.inj hrow ▸ ⟨Iff.rfl, rfl⟩
    next => cases hrow
  case hnone =>
    intro item _ hrow _
    split at hrow
    next => cases hrow
    next hzero => exact not_not.mp hzero
  rw [Dict.tally_totals _ _ _ fun k : Option Uuid × Option Uuid => k.1 ≠ some stagingId,
    Tally.tally_filter]
  apply Tally.tally_congr
  · intro e _
    simp only [StockEntry.bucket]
    tauto
  · exact fun _ _ _ => rfl

/-- The sources of a line add up to what is wanted, or to all that lies outside the staging. -/
theorem sourcesFor_sum (hnonneg : NonNegative db) (wanted : Decimal) :
    ((sourcesFor db workspaceId partId stagingId wanted).map (·.quantity)).sum =
      min (max 0 wanted) (heldIn (fun b => (b.workspaceId = workspaceId ∧
        b.partId = some partId) ∧ b.storageLocationId ≠ some stagingId) db.stockEntries) := by
  rw [← kitBuckets_sum hnonneg, sourcesFor, takeBuckets_eq, List.map_map]
  have hperm := List.perm_insertionSort (fun a b : PartStockRow => b.quantity < a.quantity ∨
    a.quantity = b.quantity ∧ (idKey a.storageLocationId < idKey b.storageLocationId ∨
      idKey a.storageLocationId = idKey b.storageLocationId ∧ idKey a.lotId ≤ idKey b.lotId))
    ((stockSummaryForPart db workspaceId partId .onHand).filter fun row =>
      row.storageLocationId ≠ some stagingId ∧ 0 < row.quantity)
  rw [← (hperm.map (·.quantity)).sum_eq]
  apply Draining.drain_sum
  intro b hb
  have hbucket := List.mem_filter.mp (hperm.mem_iff.mp hb)
  exact (of_decide_eq_true hbucket.2).2.le

end Sources

end StockManager
