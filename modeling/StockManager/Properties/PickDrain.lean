import StockManager.Properties.PickConsume

/-! # One drain of one pool

The rows of a sheet are served one after the other from one pool of each part.
What they take together is what they require, as far as the pool goes, and the
walk over the shelves takes the same picks, one stop for each location. -/

namespace StockManager

/-- Rows served from these pools: no bucket is overdrawn, and a row is short only
when its part's pool is empty. -/
structure GreedyDrain (rows : List PickRow) (pools : List (Uuid × List PickBucket))
    (served : List ServedRow) : Prop where
  order : served.map (·.row) = rows
  within : ∀ partId key, takenAt served partId key ≤ heldAt (poolOf pools partId) key
  planned : ∀ s ∈ served, ∀ onHand alternates,
    (linePayload s.row onHand alternates s.picks).planned = (s.picks.map (·.take)).sum ∧
      (linePayload s.row onHand alternates s.picks).planned +
        (linePayload s.row onHand alternates s.picks).shortBy = max 0 s.row.required
  drained : ∀ before s after, served = before ++ s :: after → ∀ onHand alternates,
    (linePayload s.row onHand alternates s.picks).isShort = true →
      ∀ key, takenAt (before ++ [s]) s.row.part.id key = heldAt (poolOf pools s.row.part.id) key
  total : ∀ partId, takenFor served partId =
    min (tally (fun row => row.part.id = partId) (fun row => max 0 row.required) rows)
      (poolTotal (poolOf pools partId))

/-- The stops hold the served picks, and no location is visited twice. -/
structure OneWalk (served : List ServedRow) (stops : List PickStop) : Prop where
  picks : (stops.flatMap fun stop => stop.picks.map (·.picked stop.storageLocationId)).Perm
    ((servedPicks served).map pickedOf)
  locations : (stops.map (·.storageLocationId)).Nodup

section Drain

variable (casefold : String → String) {rows : List PickRow}
  {pools : List (Uuid × List PickBucket)}

theorem linePayload_planned {row : PickRow} {picks : List BucketPick} (onHand alternates : Decimal)
    (hnonneg : 0 ≤ (picks.map (·.take)).sum)
    (hle : (picks.map (·.take)).sum ≤ max 0 row.required) :
    (linePayload row onHand alternates picks).planned +
      (linePayload row onHand alternates picks).shortBy = max 0 row.required := by
  change (picks.map (·.take)).sum + max 0 (row.required - (picks.map (·.take)).sum) = _
  rcases le_total 0 row.required with hreq | hreq
  · rw [max_eq_right hreq] at hle ⊢
    rw [max_eq_right (sub_nonneg.mpr hle)]
    exact add_sub_cancel _ _
  · rw [max_eq_left hreq] at hle ⊢
    have hzero : (picks.map (·.take)).sum = 0 := le_antisymm hle hnonneg
    rw [hzero, sub_zero, max_eq_left hreq, add_zero]

theorem serveRows_planned (hsound : ∀ partId, PoolSound (poolOf pools partId)) :
    ∀ s ∈ serveRows casefold rows pools, 0 ≤ (s.picks.map (·.take)).sum ∧
      (s.picks.map (·.take)).sum ≤ max 0 s.row.required := by
  induction rows generalizing pools with
  | nil => exact fun s hs => by cases hs
  | cons row rows ih =>
    intro s hs
    rw [serveRows_cons] at hs
    rcases List.mem_cons.mp hs with rfl | hs
    · have hpool := hsound row.part.id
      have hsum := allocatePicks_sum casefold hpool row.required
      simp only
      rw [hsum]
      exact ⟨le_min (le_max_left _ _) (poolTotal_nonneg hpool), min_le_left _ _⟩
    · exact ih (served_sound casefold row hsound) s hs

theorem serveRows_greedy (hsound : ∀ partId, PoolSound (poolOf pools partId)) :
    GreedyDrain rows pools (serveRows casefold rows pools) := by
  constructor
  case order => exact serveRows_rows casefold rows
  case within => exact servedPicks_le casefold rows hsound
  case planned =>
    intro s hs onHand alternates
    obtain ⟨hnonneg, hle⟩ := serveRows_planned casefold hsound s hs
    exact ⟨rfl, linePayload_planned onHand alternates hnonneg hle⟩
  case drained =>
    intro before s after hserved onHand alternates hshort
    have hpos : 0 < max 0 (s.row.required - (s.picks.map (·.take)).sum) := of_decide_eq_true hshort
    have hless : (s.picks.map (·.take)).sum < s.row.required :=
      sub_pos.mp ((lt_max_iff.mp hpos).resolve_left (lt_irrefl 0))
    exact servedPicks_short casefold rows hsound hserved hless
  case total => exact servedPicks_total casefold rows hsound

theorem pickStops_oneWalk (db : Db) (workspaceId : Uuid) (served : List ServedRow) :
    OneWalk served (pickStops casefold db workspaceId served) := by
  constructor
  case picks => exact pickStops_picked casefold db workspaceId served
  case locations =>
    let picks : List (Option Uuid × SheetPick) := served.flatMap fun s =>
      s.picks.map fun pick => (pick.bucket.storageLocationId, sheetPick s.row pick)
    have hkeys : (Dict.keys (Dict.gather Prod.fst Prod.snd picks)).Nodup :=
      Dict.nodup_keys_collect (by simp [Dict.keys]) _
    rw [pickStops, List.map_map]
    exact ((List.perm_insertionSort _ _).map Prod.fst).nodup_iff.mpr hkeys

end Drain

/-- Any rows served from any pools drain them greedily and make one walk, and a pick list
serves the rows of its build in BOM order from the stock of their parts. -/
theorem pickList_greedy (casefold : String → String) (db : Db) (workspaceId : Uuid) :
    (∀ rows pools, (∀ partId, PoolSound (poolOf pools partId)) →
      GreedyDrain rows pools (serveRows casefold rows pools) ∧
        OneWalk (serveRows casefold rows pools)
          (pickStops casefold db workspaceId (serveRows casefold rows pools))) ∧
    ∀ build project stage, ∃ rows pools, ∃ onHand alternates : ServedRow → Decimal,
      rows.Perm (entryRows db workspaceId project build stage) ∧
        rows.Pairwise (fun a b => a.entry.orderIndex ≤ b.entry.orderIndex) ∧
        (∀ partId, PoolSound (poolOf pools partId)) ∧
        (pickList casefold db workspaceId build project stage).lines =
          (serveRows casefold rows pools).map (fun s =>
            linePayload s.row (onHand s) (alternates s) s.picks) ∧
        (pickList casefold db workspaceId build project stage).stops =
          pickStops casefold db workspaceId (serveRows casefold rows pools) := by
  constructor
  · intro rows pools hsound
    exact ⟨serveRows_greedy casefold hsound, pickStops_oneWalk casefold db workspaceId _⟩
  · intro build project stage
    let onHand := fun s : ServedRow => (s.pool.map (·.available)).sum
    let alternates := fun s : ServedRow => ((candidatePartIds db s.row.part).flatMap fun id =>
      (stockOf db workspaceId (sheetPartIds db workspaceId build project stage) id).map
        (·.quantity)).sum
    refine ⟨_, sheetPools db workspaceId build project stage, onHand, alternates,
      List.perm_insertionSort _ _, List.pairwise_insertionSort _ _,
      sheetPools_sound db workspaceId build project stage, ?_,
      pickList_stops casefold db workspaceId build project stage⟩
    rfl

theorem pickList_greedy_sample :
    ∃ rows pools, (rows.map (·.required) = [2, 4] ∧ poolTotal (poolOf pools 10) = 7) ∧
      GreedyDrain rows pools (serveRows id rows pools) := by
  let rows := (entryRows samplePickDb 1 ⟨30, 1, none⟩ sampleStagedBuild none).insertionSort
    fun a b => a.entry.orderIndex ≤ b.entry.orderIndex
  let pools := sheetPools samplePickDb 1 sampleStagedBuild ⟨30, 1, none⟩ none
  refine ⟨rows, pools, by decide +kernel, ?_⟩
  exact ((pickList_greedy id samplePickDb 1).1 rows pools (sheetPools_sound _ _ _ _ _)).1

/-- A part whose attrition takes back more than the BOM line asks for. -/
def sampleNegativeDb : Db :=
  { samplePickDb with
    parts := samplePickDb.parts.map fun part =>
      { part with attritionPercentage := -200, attritionMinQuantity := -9 } }

theorem negative_requirement_unplanned :
    ∃ line ∈ (pickList id sampleNegativeDb 1 sampleStagedBuild ⟨30, 1, none⟩ none).lines,
      line.planned + line.shortBy ≠ line.required := by
  decide +kernel

end StockManager
