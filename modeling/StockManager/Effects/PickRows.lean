import StockManager.Effects.Allocation
import StockManager.Model.PickList

/-! # What the picks of a sheet take

The picks of all rows together take from a bucket at most what it held when the
pools were built. -/

namespace StockManager

abbrev PickKey := Option Uuid × Option Uuid × String

/-- What is left in the buckets with this key. -/
def heldAt (pool : List PickBucket) (key : PickKey) : Decimal :=
  tally (fun b => b.key = key) (·.unclaimed) pool

/-- A pool as the stock service groups it, with nothing overdrawn. -/
structure PoolSound (pool : List PickBucket) : Prop where
  keys : (pool.map PickBucket.key).Nodup
  nonneg : ∀ b ∈ pool, 0 ≤ b.unclaimed

theorem PoolSound.empty : PoolSound [] := ⟨List.nodup_nil, fun _ hb => by cases hb⟩

theorem heldAt_nonneg {pool : List PickBucket} (h : PoolSound pool) (key : PickKey) :
    0 ≤ heldAt pool key := Tally.tally_nonneg _ _ fun b hb _ => h.nonneg b hb

section Take

variable (casefold : String → String) {remaining : Decimal} {pool : List PickBucket}

theorem takePicks_mem {pick : BucketPick} (h : pick ∈ takePicks remaining pool) :
    0 < pick.take ∧ ∃ b ∈ pool, pick.bucket.key = b.key := by
  induction pool generalizing remaining with
  | nil => cases h
  | cons b pool ih =>
    unfold takePicks at h
    split at h
    next => cases h
    next =>
      simp only at h
      split at h
      next =>
        obtain ⟨hpos, c, hc, hkey⟩ := ih h
        exact ⟨hpos, c, List.mem_cons_of_mem _ hc, hkey⟩
      next htake =>
        rcases List.mem_cons.mp h with rfl | h
        · exact ⟨not_le.mp htake, b, List.mem_cons_self .., rfl⟩
        · obtain ⟨hpos, c, hc, hkey⟩ := ih h
          exact ⟨hpos, c, List.mem_cons_of_mem _ hc, hkey⟩

theorem takePicks_tally (hpool : ∀ b ∈ pool, 0 ≤ b.unclaimed) (p : PickKey → Prop)
    [DecidablePred p] :
    tally (fun pick => p pick.bucket.key) (·.take) (takePicks remaining pool) =
      tally (fun x => p x.1.key) (·.2) (Draining.drain (·.unclaimed) remaining pool) := by
  induction pool generalizing remaining with
  | nil => rfl
  | cons b pool ih =>
    have hrest : ∀ c ∈ pool, 0 ≤ c.unclaimed := fun c hc => hpool c (List.mem_cons_of_mem _ hc)
    unfold takePicks Draining.drain
    split
    next => rfl
    next hremaining =>
      rw [Tally.tally_cons, ← ih hrest]
      simp only
      split
      next htake =>
        have hnone : min remaining b.unclaimed = 0 :=
          le_antisymm htake (le_min (not_le.mp hremaining).le (hpool b (List.mem_cons_self ..)))
        rw [hnone, ite_self, zero_add, sub_zero]
      next => exact Tally.tally_cons ..

theorem takenOf_takePicks_le (hpool : ∀ b ∈ pool, 0 ≤ b.unclaimed) (key : PickKey) :
    takenOf (takePicks remaining pool) key ≤ heldAt pool key := by
  rw [takenOf, takePicks_tally hpool fun k => k = key]
  exact Draining.tally_drain_le hpool remaining fun b => b.key = key

theorem allocatePicks_mem {required : Decimal} {pick : BucketPick}
    (h : pick ∈ (allocatePicks casefold required pool).1) :
    0 < pick.take ∧ ∃ b ∈ pool, pick.bucket.key = b.key := by
  obtain ⟨hpos, b, hb, hkey⟩ := takePicks_mem h
  exact ⟨hpos, b, (List.mem_insertionSort _).mp hb, hkey⟩

theorem takenOf_le_heldAt (h : PoolSound pool) (required : Decimal) (key : PickKey) :
    takenOf (allocatePicks casefold required pool).1 key ≤ heldAt pool key := by
  have hperm := List.perm_insertionSort
    (fun a b : PickBucket => a.sortKey casefold ≤ b.sortKey casefold) pool
  have hsame : heldAt (pool.insertionSort fun a b => a.sortKey casefold ≤ b.sortKey casefold) key =
      heldAt pool key := Tally.tally_perm _ _ hperm
  rw [← hsame]
  exact takenOf_takePicks_le (fun b hb => h.nonneg b (hperm.mem_iff.mp hb)) key

theorem allocatePicks_keys (required : Decimal) :
    (allocatePicks casefold required pool).2.map PickBucket.key = pool.map PickBucket.key := by
  rw [allocatePicks, List.map_map]
  rfl

theorem heldAt_of_mem (h : PoolSound pool) {b : PickBucket} (hb : b ∈ pool) :
    heldAt pool b.key = b.unclaimed := Tally.tally_key _ PickBucket.key h.keys hb

theorem heldAt_of_not_mem {key : PickKey} (h : key ∉ pool.map PickBucket.key) :
    heldAt pool key = 0 := by
  apply Tally.tally_eq_zero
  intro b hb hkey
  exact h (hkey ▸ List.mem_map_of_mem hb)

theorem allocatePicks_left (h : PoolSound pool) (required : Decimal) :
    PoolSound (allocatePicks casefold required pool).2 ∧ ∀ key,
      heldAt (allocatePicks casefold required pool).2 key =
        heldAt pool key - takenOf (allocatePicks casefold required pool).1 key := by
  have hsound : PoolSound (allocatePicks casefold required pool).2 := by
    constructor
    case keys =>
      rw [allocatePicks_keys]
      exact h.keys
    case nonneg =>
      intro c hc
      obtain ⟨b, hb, rfl⟩ := List.mem_map.mp hc
      have hle := takenOf_le_heldAt casefold h required b.key
      rw [heldAt_of_mem h hb] at hle
      exact sub_nonneg.mpr hle
  refine ⟨hsound, ?_⟩
  intro key
  by_cases hkey : key ∈ pool.map PickBucket.key
  · obtain ⟨b, hb, rfl⟩ := List.mem_map.mp hkey
    have hleft : b.drain (allocatePicks casefold required pool).1 ∈
        (allocatePicks casefold required pool).2 := List.mem_map_of_mem hb
    rw [heldAt_of_mem h hb]
    exact heldAt_of_mem hsound hleft
  · have htaken : takenOf (allocatePicks casefold required pool).1 key = 0 := by
      apply Tally.tally_eq_zero
      intro pick hpick heq
      obtain ⟨_, b, hb, hb'⟩ := allocatePicks_mem casefold hpick
      exact hkey (List.mem_map.mpr ⟨b, hb, hb'.symm.trans heq⟩)
    rw [heldAt_of_not_mem hkey, htaken, sub_zero]
    apply heldAt_of_not_mem
    rwa [allocatePicks_keys]

/-! The picks of a row are all it requires, or all its pool had. -/

def poolTotal (pool : List PickBucket) : Decimal := (pool.map (·.unclaimed)).sum

theorem poolTotal_nonneg (h : PoolSound pool) : 0 ≤ poolTotal pool :=
  Draining.sum_sizes_nonneg h.nonneg

theorem allocatePicks_sum (h : PoolSound pool) (required : Decimal) :
    ((allocatePicks casefold required pool).1.map (·.take)).sum =
      min (max 0 required) (poolTotal pool) := by
  have hperm := List.perm_insertionSort
    (fun a b : PickBucket => a.sortKey casefold ≤ b.sortKey casefold) pool
  have hsorted : ∀ b ∈ pool.insertionSort fun a b => a.sortKey casefold ≤ b.sortKey casefold,
      0 ≤ b.unclaimed := fun b hb => h.nonneg b (hperm.mem_iff.mp hb)
  have hsame := (hperm.map (·.unclaimed)).sum_eq
  have hdrain := Draining.drain_sum hsorted required
  rw [hsame] at hdrain
  rw [poolTotal, ← hdrain]
  have htally := @takePicks_tally required _ hsorted (fun _ => True) _
  rwa [Tally.tally_all _ _ fun _ _ => trivial, Tally.tally_all _ _ fun _ _ => trivial] at htally

theorem allocatePicks_total (h : PoolSound pool) (required : Decimal) :
    poolTotal (allocatePicks casefold required pool).2 =
      poolTotal pool - ((allocatePicks casefold required pool).1.map (·.take)).sum := by
  let picks := (allocatePicks casefold required pool).1
  have hkeys : ((pool.map PickBucket.key).map (takenOf picks)).sum = (picks.map (·.take)).sum := by
    have hgroups := Tally.tally_fiberwise (fun _ : BucketPick => True) (·.take)
      (·.bucket.key) h.keys picks
    rw [Tally.tally_all] at hgroups
    case h =>
      intro pick hpick
      obtain ⟨_, b, hb, hkey⟩ := allocatePicks_mem casefold hpick
      exact ⟨trivial, hkey ▸ List.mem_map_of_mem hb⟩
    rw [← hgroups]
    simp only [true_and]
    rfl
  have hleft : (allocatePicks casefold required pool).2.map (·.unclaimed) =
      pool.map fun b => b.unclaimed - takenOf picks b.key := List.map_map ..
  apply eq_sub_of_add_eq
  rw [poolTotal, hleft, ← hkeys, List.map_map, ← List.sum_map_add]
  simp only [Function.comp_apply, sub_add_cancel]
  rfl

theorem allocatePicks_short (h : PoolSound pool) {required : Decimal}
    (hshort : ((allocatePicks casefold required pool).1.map (·.take)).sum < required)
    (key : PickKey) :
    takenOf (allocatePicks casefold required pool).1 key = heldAt pool key := by
  obtain ⟨hsound, hheld⟩ := allocatePicks_left casefold h required
  have hempty : poolTotal (allocatePicks casefold required pool).2 = 0 := by
    rw [allocatePicks_total casefold h, sub_eq_zero, allocatePicks_sum casefold h]
    rw [allocatePicks_sum casefold h] at hshort
    rcases min_choice (max 0 required) (poolTotal pool) with hmin | hmin
    · exact absurd (hmin ▸ hshort) (not_lt.mpr (le_max_right _ _))
    · exact hmin.symm
  have hzero : heldAt (allocatePicks casefold required pool).2 key = 0 := by
    apply le_antisymm _ (heldAt_nonneg hsound key)
    rw [← hempty, poolTotal, ← Tally.tally_all (fun _ : PickBucket => True) _ fun _ _ => trivial]
    exact Tally.tally_mono _ _ hsound.nonneg fun _ _ _ => trivial
  rw [hheld] at hzero
  exact (sub_eq_zero.mp hzero).symm

end Take

/-- The picks of the served rows, each beside its row. -/
def servedPicks (served : List ServedRow) : List (PickRow × BucketPick) :=
  served.flatMap fun s => s.picks.map fun pick => (s.row, pick)

section Serve

variable (casefold : String → String) (rows : List PickRow)
  {pools : List (Uuid × List PickBucket)}

def poolOf (pools : List (Uuid × List PickBucket)) (partId : Uuid) : List PickBucket :=
  (Dict.find partId pools).getD []

theorem poolOf_put (pools : List (Uuid × List PickBucket)) (k partId : Uuid)
    (pool : List PickBucket) :
    poolOf (Dict.put k pool pools) partId = if k = partId then pool else poolOf pools partId := by
  unfold poolOf Dict.put
  by_cases h : k = partId
  · rw [← h, Dict.find_upsert_self, if_pos rfl]
    rfl
  · rw [Dict.find_upsert_of_ne h, if_neg h]

theorem serveRows_cons (row : PickRow) (pools : List (Uuid × List PickBucket)) :
    serveRows casefold (row :: rows) pools =
      ⟨row, poolOf pools row.part.id,
        (allocatePicks casefold row.required (poolOf pools row.part.id)).1⟩ ::
      serveRows casefold rows (Dict.put row.part.id
        (allocatePicks casefold row.required (poolOf pools row.part.id)).2 pools) := rfl

theorem serveRows_rows : (serveRows casefold rows pools).map (·.row) = rows := by
  induction rows generalizing pools with
  | nil => rfl
  | cons row rows ih => rw [serveRows, List.map_cons, ih]

theorem servedPicks_mem {item : PickRow × BucketPick}
    (h : item ∈ servedPicks (serveRows casefold rows pools)) : item.1 ∈ rows ∧
      0 < item.2.take ∧ ∃ b ∈ poolOf pools item.1.part.id, item.2.bucket.key = b.key := by
  induction rows generalizing pools with
  | nil => cases h
  | cons row rows ih =>
    rw [serveRows, servedPicks, List.flatMap_cons, List.mem_append] at h
    rcases h with h | h
    · obtain ⟨pick, hpick, rfl⟩ := List.mem_map.mp h
      obtain ⟨hpos, b, hb, hkey⟩ := allocatePicks_mem casefold hpick
      exact ⟨List.mem_cons_self .., hpos, b, hb, hkey⟩
    · obtain ⟨hrow, hpos, b, hb, hkey⟩ := ih h
      refine ⟨List.mem_cons_of_mem _ hrow, hpos, ?_⟩
      rw [poolOf_put] at hb
      split at hb
      next hpart =>
        have hmem := List.mem_map_of_mem (f := PickBucket.key) hb
        rw [allocatePicks_keys] at hmem
        obtain ⟨c, hc, hckey⟩ := List.mem_map.mp hmem
        exact ⟨c, hpart ▸ hc, hkey.trans hckey.symm⟩
      next => exact ⟨b, hb, hkey⟩

/-- What the served rows take of one bucket of one part's pool. -/
def takenAt (served : List ServedRow) (partId : Uuid) (key : PickKey) : Decimal :=
  tally (fun item => item.1.part.id = partId ∧ item.2.bucket.key = key) (·.2.take)
    (servedPicks served)

def takenFor (served : List ServedRow) (partId : Uuid) : Decimal :=
  tally (fun item => item.1.part.id = partId) (·.2.take) (servedPicks served)

theorem takenAt_cons (s : ServedRow) (served : List ServedRow) (partId : Uuid) (key : PickKey) :
    takenAt (s :: served) partId key =
      (if s.row.part.id = partId then takenOf s.picks key else 0) + takenAt served partId key := by
  rw [takenAt, servedPicks, List.flatMap_cons, Tally.tally_append, Tally.tally_map]
  congr 1
  split
  next hpart =>
    exact Tally.tally_congr _ _ _ _ (fun _ _ => and_iff_right hpart) fun _ _ _ => rfl
  next hpart => exact Tally.tally_eq_zero _ _ fun _ _ h => hpart h.1

theorem takenFor_cons (s : ServedRow) (served : List ServedRow) (partId : Uuid) :
    takenFor (s :: served) partId =
      (if s.row.part.id = partId then (s.picks.map (·.take)).sum else 0) +
        takenFor served partId := by
  rw [takenFor, servedPicks, List.flatMap_cons, Tally.tally_append, Tally.tally_map]
  congr 1
  split
  next hpart => exact Tally.tally_all _ _ fun _ _ => hpart
  next hpart => exact Tally.tally_eq_zero _ _ fun _ _ h => hpart h

section Row

variable (row : PickRow) (hsound : ∀ partId, PoolSound (poolOf pools partId))
include hsound

/-! What a served row leaves of the pools -/

theorem served_sound (partId : Uuid) : PoolSound (poolOf (Dict.put row.part.id
    (allocatePicks casefold row.required (poolOf pools row.part.id)).2 pools) partId) := by
  rw [poolOf_put]
  split
  next => exact (allocatePicks_left casefold (hsound _) row.required).1
  next => exact hsound partId

theorem served_held (partId : Uuid) (key : PickKey) :
    heldAt (poolOf pools partId) key = (if row.part.id = partId then
        takenOf (allocatePicks casefold row.required (poolOf pools row.part.id)).1 key else 0) +
      heldAt (poolOf (Dict.put row.part.id
        (allocatePicks casefold row.required (poolOf pools row.part.id)).2 pools) partId) key := by
  rw [poolOf_put]
  split
  next hpart =>
    rw [(allocatePicks_left casefold (hsound _) row.required).2, add_sub_cancel, hpart]
  next => rw [zero_add]

theorem served_total (partId : Uuid) :
    poolTotal (poolOf pools partId) = (if row.part.id = partId then
        min (max 0 row.required) (poolTotal (poolOf pools partId)) else 0) +
      poolTotal (poolOf (Dict.put row.part.id
        (allocatePicks casefold row.required (poolOf pools row.part.id)).2 pools) partId) := by
  rw [poolOf_put]
  split
  next hpart =>
    rw [allocatePicks_total casefold (hsound _), allocatePicks_sum casefold (hsound _), hpart,
      add_sub_cancel]
  next => rw [zero_add]

end Row

/-- The picks of all rows take from a bucket at most what it held. -/
theorem servedPicks_le (hsound : ∀ partId, PoolSound (poolOf pools partId)) (partId : Uuid)
    (key : PickKey) :
    tally (fun item => item.1.part.id = partId ∧ item.2.bucket.key = key) (·.2.take)
      (servedPicks (serveRows casefold rows pools)) ≤ heldAt (poolOf pools partId) key := by
  change takenAt (serveRows casefold rows pools) partId key ≤ _
  induction rows generalizing pools with
  | nil => exact heldAt_nonneg (hsound partId) key
  | cons row rows ih =>
    rw [serveRows_cons, takenAt_cons, served_held casefold row hsound partId key]
    exact add_le_add le_rfl (ih (served_sound casefold row hsound))

theorem servedPicks_total (hsound : ∀ partId, PoolSound (poolOf pools partId)) (partId : Uuid) :
    takenFor (serveRows casefold rows pools) partId =
      min (tally (fun row => row.part.id = partId) (fun row => max 0 row.required) rows)
        (poolTotal (poolOf pools partId)) := by
  induction rows generalizing pools with
  | nil => exact (min_eq_left (poolTotal_nonneg (hsound partId))).symm
  | cons row rows ih =>
    have htotal := served_total casefold row hsound partId
    have hrows : 0 ≤ tally (fun row => row.part.id = partId) (fun row => max 0 row.required) rows :=
      Tally.tally_nonneg _ _ fun _ _ _ => le_max_left _ _
    rw [serveRows_cons, takenFor_cons, ih (served_sound casefold row hsound), Tally.tally_cons]
    by_cases hpart : row.part.id = partId
    · subst hpart
      have hpicks := allocatePicks_sum casefold (hsound row.part.id) row.required
      have hpool := poolTotal_nonneg (hsound row.part.id)
      rw [if_pos rfl] at htotal
      rw [if_pos rfl, if_pos rfl]
      rw [hpicks]
      rcases le_total (max 0 row.required) (poolTotal (poolOf pools row.part.id)) with hle | hle
      · rw [min_eq_left hle] at htotal ⊢
        rw [← min_add_add_left, ← htotal]
      · rw [min_eq_right hle] at htotal ⊢
        rw [left_eq_add.mp htotal, min_eq_right hrows, add_zero,
          min_eq_right (hle.trans (le_add_of_nonneg_right hrows))]
    · rw [if_neg hpart, zero_add] at htotal
      rw [if_neg hpart, if_neg hpart, zero_add, zero_add, ← htotal]

theorem servedPicks_short (hsound : ∀ partId, PoolSound (poolOf pools partId))
    {before after : List ServedRow} {s : ServedRow}
    (hserved : serveRows casefold rows pools = before ++ s :: after)
    (hshort : (s.picks.map (·.take)).sum < s.row.required) (key : PickKey) :
    takenAt (before ++ [s]) s.row.part.id key = heldAt (poolOf pools s.row.part.id) key := by
  induction rows generalizing pools before with
  | nil =>
    rw [serveRows] at hserved
    exact absurd hserved (by simp)
  | cons row rows ih =>
    rw [serveRows_cons] at hserved
    cases before with
    | nil =>
      rw [List.nil_append, List.cons.injEq] at hserved
      obtain ⟨rfl, _⟩ := hserved
      rw [List.nil_append, takenAt_cons, if_pos rfl]
      exact (add_zero _).trans (allocatePicks_short casefold (hsound row.part.id) hshort key)
    | cons t before =>
      rw [List.cons_append, List.cons.injEq] at hserved
      obtain ⟨rfl, hrest⟩ := hserved
      rw [List.cons_append, takenAt_cons, ih (served_sound casefold row hsound) hrest,
        served_held casefold row hsound]

theorem planned_le_servedPicks {served : List ServedRow}
    (hpos : ∀ item ∈ servedPicks served, 0 < item.2.take) {s : ServedRow} (hs : s ∈ served) :
    (s.picks.map (·.take)).sum ≤
      tally (fun item => item.1.entry.id = s.row.entry.id) (·.2.take) (servedPicks served) := by
  have hown : (s.picks.map (·.take)).sum =
      tally (fun item : PickRow × BucketPick => item.1.entry.id = s.row.entry.id) (·.2.take)
        (s.picks.map fun pick => (s.row, pick)) := by
    rw [Tally.tally_map, Tally.tally_all _ _ fun _ _ => rfl]
  have hterm : ∀ t ∈ served, 0 ≤
      tally (fun item : PickRow × BucketPick => item.1.entry.id = s.row.entry.id) (·.2.take)
        (t.picks.map fun pick => (t.row, pick)) := by
    intro t ht
    apply Tally.tally_nonneg
    intro item hitem _
    exact le_of_lt (hpos item (List.mem_flatMap.mpr ⟨t, ht, hitem⟩))
  rw [hown, servedPicks, Tally.tally_flatMap]
  apply List.single_le_sum
  · intro x hx
    obtain ⟨t, ht, rfl⟩ := List.mem_map.mp hx
    exact hterm t ht
  · exact List.mem_map.mpr ⟨s, hs, rfl⟩

end Serve

end StockManager
