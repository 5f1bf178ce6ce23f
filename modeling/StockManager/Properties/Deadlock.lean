import StockManager.Model.DbSessions
import StockManager.Model.System

/-! # When the advisory locks can deadlock

The locks of one call ascend, parts before locations, except for three kinds of
call. A deadlock needs one of them. -/

namespace StockManager

open LockTable

def lockRank : LockKey → ℕ ×ₗ ℕ ×ₗ ℕ
  | .part workspaceId partId => toLex (0, toLex (workspaceId, strRank partId))
  | .storage workspaceId storageLocationId => toLex (1, toLex (workspaceId, storageLocationId))

/-- The calls that take no lock below one they have: all but a receive whose lines
go back to a lower location, a consume of a build with a reservation for a part
outside the bundle, and a kit whose plan gained a part after the parts were locked. -/
def LockOp.Ascending (workspaceId : Uuid) : LockOp → Prop
  | addStock _ => True
  | moveStock _ => True
  | patchStorage _ _ => True
  | executeKit atLock atPlan build project stage staging =>
    ∀ line ∈ planKit atPlan workspaceId build project stage staging,
      line.partId ∈ Dict.keys (requiredByPart atLock workspaceId build project stage).1
  | receive _ _ payload => (payload.lines.filterMap (·.storageLocationId)).Pairwise (· ≤ ·)
  | consume atLock atRelease build project payload =>
    ∀ partId ∈ reservedParts atRelease workspaceId build,
      partId ∈ (consumeBundle atLock workspaceId project payload).map some
  | consumeStage atLock atRelease atClose build project _ payload =>
    ∀ partId ∈ reservedParts atRelease workspaceId build ++ reservedParts atClose workspaceId build,
      partId ∈ (consumeBundle atLock workspaceId project payload).map some

section Lists

variable {workspaceId : Uuid}

theorem strRank_injective : Function.Injective strRank := by
  intro a b h
  cases a with
  | none =>
    cases b with
    | none => rfl
    | some b => exact absurd h Nat.two_mul_ne_two_mul_add_one
  | some a =>
    cases b with
    | none => exact absurd h.symm Nat.two_mul_ne_two_mul_add_one
    | some b =>
      have hdouble : 2 * a = 2 * b := Nat.succ_inj.mp h
      rw [Nat.eq_of_mul_eq_mul_left Nat.two_pos hdouble]

theorem part_lt_part {p q : Option Uuid} :
    lockRank (.part workspaceId p) < lockRank (.part workspaceId q) ↔ strRank p < strRank q := by
  simp [lockRank, Prod.Lex.toLex_lt_toLex]

theorem part_lt_storage (p : Option Uuid) (s : Uuid) :
    lockRank (.part workspaceId p) < lockRank (.storage workspaceId s) := by
  simp [lockRank, Prod.Lex.toLex_lt_toLex]

theorem storage_lt_storage {s t : Uuid} :
    lockRank (.storage workspaceId s) < lockRank (.storage workspaceId t) ↔ s < t := by
  simp [lockRank, Prod.Lex.toLex_lt_toLex]

theorem mem_lockPartsForStockWrite {partIds : List (Option Uuid)} {k : LockKey} :
    k ∈ lockPartsForStockWrite workspaceId partIds ↔ ∃ p ∈ partIds, k = .part workspaceId p := by
  simp only [lockPartsForStockWrite, List.mem_map, List.mem_insertionSort, List.mem_dedup,
    eq_comm (a := k)]

theorem lockParts_pairwise (partIds : List (Option Uuid)) :
    (lockPartsForStockWrite workspaceId partIds).Pairwise fun a b => lockRank a < lockRank b := by
  let sorted := partIds.dedup.insertionSort fun a b => strRank a ≤ strRank b
  have hle : sorted.Pairwise fun a b => strRank a ≤ strRank b :=
    List.pairwise_insertionSort (fun a b => strRank a ≤ strRank b) partIds.dedup
  have hne : sorted.Pairwise fun a b => a ≠ b :=
    ((List.perm_insertionSort _ partIds.dedup).nodup_iff).mpr (List.nodup_dedup partIds)
  rw [lockPartsForStockWrite, List.pairwise_map]
  refine (hle.and hne).imp ?_
  rintro a b ⟨hab, hneq⟩
  exact part_lt_part.mpr (lt_of_le_of_ne hab fun h => hneq (strRank_injective h))

theorem mem_lockForStorageConstraint {s : Option Uuid} {k : LockKey} :
    k ∈ lockForStorageConstraint workspaceId s ↔ ∃ id, s = some id ∧ k = .storage workspaceId id := by
  cases s with
  | none => simp [lockForStorageConstraint]
  | some id => simp [lockForStorageConstraint]

end Lists

section Calls

variable {workspaceId : Uuid}

theorem inOrder_batch {partIds : List (Option Uuid)} {ys : List LockKey} (s : Option Uuid)
    (hys : ∀ l ∈ ys, (∃ p ∈ partIds, l = .part workspaceId p) ∨
      l ∈ lockForStorageConstraint workspaceId s) :
    InOrder lockRank (lockPartsForStockWrite workspaceId partIds ++ ys) := by
  have hsame : ∀ k ∈ lockForStorageConstraint workspaceId s,
      ∀ l ∈ lockForStorageConstraint workspaceId s, k = l := by
    intro k hk l hl
    obtain ⟨a, ha, rfl⟩ := mem_lockForStorageConstraint.mp hk
    obtain ⟨b, hb, rfl⟩ := mem_lockForStorageConstraint.mp hl
    rw [Option.some.inj (ha.symm.trans hb)]
  apply inOrder_append (inOrder_of_pairwise (lockParts_pairwise partIds))
  · intro l hl
    rcases hys l hl with hpart | hstorage
    · exact Or.inl (mem_lockPartsForStockWrite.mpr hpart)
    · obtain ⟨id, _, rfl⟩ := mem_lockForStorageConstraint.mp hstorage
      right
      intro k hk
      obtain ⟨p, _, rfl⟩ := mem_lockPartsForStockWrite.mp hk
      exact part_lt_storage p id
  · apply List.pairwise_of_forall_mem_list
    intro k hk l hl
    rcases hys l hl with hpart | hstorage
    · exact Or.inl (mem_lockPartsForStockWrite.mpr hpart)
    · rcases hys k hk with hpart | hstorage'
      · exact Or.inr (Or.inl (mem_lockPartsForStockWrite.mpr hpart))
      · exact Or.inr (Or.inr (Or.inl (hsame k hstorage' l hstorage)))

theorem executeKit_inOrder {atLock atPlan : Db} {build : Build} {project : Project}
    {stage : Option BuildStage} {staging : StorageLocation}
    (h : (LockOp.executeKit atLock atPlan build project stage staging).Ascending workspaceId) :
    InOrder lockRank
      (executeKitLocks atLock atPlan workspaceId build project stage staging) := by
  apply inOrder_batch (some staging.id)
  intro l hl
  obtain ⟨line, hline, hl⟩ := List.mem_flatMap.mp hl
  obtain ⟨source, _, hl⟩ := List.mem_flatMap.mp hl
  rcases List.mem_cons.mp hl with rfl | hl
  · exact Or.inl ⟨some line.partId, List.mem_map_of_mem (h line hline), rfl⟩
  · exact Or.inr hl

theorem receive_inOrder {atLock : Db} {order : Order} {payload : ReceiveIn}
    (h : (LockOp.receive atLock order payload).Ascending workspaceId) :
    InOrder lockRank (receiveLocks atLock workspaceId order payload) := by
  have hlocks : payload.lines.flatMap
      (fun line => lockForStorageConstraint workspaceId line.storageLocationId) =
        (payload.lines.filterMap (·.storageLocationId)).map (LockKey.storage workspaceId) := by
    rw [List.map_filterMap, List.filterMap_eq_flatMap_toList]
    rfl
  rw [receiveLocks, hlocks]
  apply inOrder_append (inOrder_of_pairwise (lockParts_pairwise _))
  · intro l hl
    obtain ⟨id, _, rfl⟩ := List.mem_map.mp hl
    right
    intro k hk
    obtain ⟨p, _, rfl⟩ := mem_lockPartsForStockWrite.mp hk
    exact part_lt_storage p id
  · rw [List.pairwise_map]
    apply h.imp
    intro a b hab
    rcases eq_or_lt_of_le hab with heq | hlt
    · exact Or.inr (Or.inr (Or.inl (congrArg _ heq)))
    · exact Or.inr (Or.inr (Or.inr (storage_lt_storage.mpr hlt)))

theorem consume_inOrder {atLock atRelease : Db} {build : Build} {project : Project}
    {payload : ConsumeIn}
    (h : (LockOp.consume atLock atRelease build project payload).Ascending workspaceId) :
    InOrder lockRank (consumeLocks atLock atRelease workspaceId build project payload) := by
  apply inOrder_batch (outputStorage project payload)
  intro l hl
  rcases List.mem_append.mp hl with hl | hl
  · obtain ⟨p, hp, rfl⟩ := mem_lockPartsForStockWrite.mp hl
    exact Or.inl ⟨p, h p hp, rfl⟩
  · exact Or.inr hl

theorem consumeStage_inOrder {atLock atRelease atClose : Db} {build : Build} {project : Project}
    {stage : BuildStage} {payload : ConsumeIn}
    (h : (LockOp.consumeStage atLock atRelease atClose build project stage payload).Ascending
      workspaceId) :
    InOrder lockRank
      (consumeStageLocks atLock atRelease atClose workspaceId build project stage payload) := by
  have hreleased : ∀ l ∈ lockPartsForStockWrite workspaceId
      (reservedParts atRelease workspaceId build),
        ∃ p ∈ (consumeBundle atLock workspaceId project payload).map some,
          l = .part workspaceId p := by
    intro l hl
    obtain ⟨p, hp, rfl⟩ := mem_lockPartsForStockWrite.mp hl
    exact ⟨p, h p (List.mem_append_left _ hp), rfl⟩
  have hclosing : ∀ l ∈ closingLocks atClose workspaceId build project payload,
      (∃ p ∈ (consumeBundle atLock workspaceId project payload).map some,
        l = .part workspaceId p) ∨
          l ∈ lockForStorageConstraint workspaceId (outputStorage project payload) := by
    intro l hl
    rcases List.mem_append.mp hl with hl | hl
    · exact Or.inr hl
    · obtain ⟨p, hp, rfl⟩ := mem_lockPartsForStockWrite.mp hl
      exact Or.inl ⟨p, h p (List.mem_append_right _ hp), rfl⟩
  apply inOrder_batch (outputStorage project payload)
  intro l hl
  rcases List.mem_append.mp hl with hl | hl
  · exact Or.inl (hreleased l hl)
  · split at hl
    next => exact hclosing l hl
    next => cases hl

theorem locks_inOrder {call : LockCall} (h : call.op.Ascending call.workspaceId) :
    InOrder lockRank call.locks := by
  obtain ⟨ws, op⟩ := call
  cases op with
  | addStock payload =>
    apply inOrder_of_pairwise
    refine List.pairwise_cons.mpr ⟨?_, ?_⟩
    · intro k hk
      obtain ⟨id, _, rfl⟩ := mem_lockForStorageConstraint.mp hk
      exact part_lt_storage _ id
    · cases payload.storageLocationId with
      | none => exact List.Pairwise.nil
      | some id => exact List.pairwise_singleton _ _
  | moveStock payload =>
    apply inOrder_of_pairwise
    exact List.pairwise_pair.mpr (part_lt_storage _ _)
  | patchStorage storage payload =>
    apply inOrder_of_pairwise
    change (patchStorageLocks ws storage payload).Pairwise _
    unfold patchStorageLocks
    split
    next => exact List.pairwise_singleton _ _
    next => exact List.Pairwise.nil
  | executeKit atLock atPlan build project stage staging => exact executeKit_inOrder h
  | receive atLock order payload => exact receive_inOrder h
  | consume atLock atRelease build project payload => exact consume_inOrder h
  | consumeStage atLock atRelease atClose build project stage payload =>
    exact consumeStage_inOrder h

end Calls

/-- Calls that all ascend never deadlock. -/
theorem deadlockFree_of_ascending {n : ℕ} {calls : Fin n → LockCall}
    (hall : ∀ i, (calls i).op.Ascending (calls i).workspaceId) {st : Fin n → Phase}
    (hreach : Reachable (fun i => (calls i).locks) st) :
    ¬ Deadlocked (fun i => (calls i).locks) st := by
  intro hdead
  have hcross := crossesAt_of_deadlocked hreach hdead
  exact not_crossesAt_of_inOrder (fun i => locks_inOrder (hall i)) hcross

/-- A set of calls can deadlock exactly when some choice of a point in each lock
list crosses them, and a call that does not ascend is then among them. -/
theorem advisoryLocks_deadlockFree_iff {n : ℕ} (calls : Fin n → LockCall) :
    ((∀ st, Reachable (fun i => (calls i).locks) st →
        ¬ Deadlocked (fun i => (calls i).locks) st) ↔
      ¬ ∃ cut, CrossesAt (fun i => (calls i).locks) cut) ∧
    ((∀ i, (calls i).op.Ascending (calls i).workspaceId) →
      ∀ st, Reachable (fun i => (calls i).locks) st →
        ¬ Deadlocked (fun i => (calls i).locks) st) := by
  constructor
  · rw [deadlockFree_iff, not_exists]
  · intro hall st hreach
    exact deadlockFree_of_ascending hall hreach

def sampleOpenOrder (id : Uuid) : Order where
  id := id
  workspaceId := 1
  name := "order"
  status := .opened
  currency := none
  receivedOn := none
  updatedBy := none

def sampleOrderEntry (id orderId partId : Uuid) : OrderEntry where
  id := id
  workspaceId := 1
  orderId := orderId
  partId := some partId
  quantityOrdered := 10
  quantityReceived := 0
  unitPrice := none
  currency := none
  orderIndex := 0
  updatedBy := none

/-- Bolts and nuts on order, with two open shelves. -/
def sampleOrdersDb : Db :=
  { sampleDb with
    storageLocations := [sampleStorage 20 "shelf" false, sampleStorage 21 "rack" false]
    orders := [sampleOpenOrder 50, sampleOpenOrder 51]
    orderEntries := [sampleOrderEntry 60 50 10, sampleOrderEntry 61 51 11] }

/-- One of an entry to each of two locations. -/
def sampleReceiveTo (entryId first second : Uuid) : ReceiveIn where
  receivedOn := none
  lines := [⟨entryId, 1, some first, none, none, Int.one_pos⟩,
    ⟨entryId, 1, some second, none, none, Int.one_pos⟩]
  linesNonempty := List.cons_ne_nil _ _

def sampleReceives : Fin 2 → LockCall
  | 0 => ⟨1, .receive sampleOrdersDb (sampleOpenOrder 50) (sampleReceiveTo 60 20 21)⟩
  | 1 => ⟨1, .receive sampleOrdersDb (sampleOpenOrder 51) (sampleReceiveTo 61 21 20)⟩

/-- Each of the two receives goes through alone, and together they can deadlock. -/
theorem receives_deadlock :
    ((receive (sampleCtx 1000) sampleOrdersDb (sampleOpenOrder 50) (sampleReceiveTo 60 20 21)).isOk ∧
      (receive (sampleCtx 2000) sampleOrdersDb (sampleOpenOrder 51) (sampleReceiveTo 61 21 20)).isOk) ∧
    ¬ ∀ {n : ℕ} (calls : Fin n → LockCall) (st : Fin n → Phase),
      Reachable (fun i => (calls i).locks) st → ¬ Deadlocked (fun i => (calls i).locks) st := by
  refine ⟨by decide +kernel, ?_⟩
  intro h
  have hcross : CrossesAt (fun i => (sampleReceives i).locks) fun _ => 2 := by
    constructor
    case apart => decide
    case ring =>
      have hfirst : Meets (fun i => (sampleReceives i).locks) (fun _ => 2) 0 1 :=
        ⟨by decide, .storage 1 21, by decide, by decide⟩
      have hsecond : Meets (fun i => (sampleReceives i).locks) (fun _ => 2) 1 0 :=
        ⟨by decide, .storage 1 20, by decide, by decide⟩
      exact ⟨0, Relation.TransGen.tail (Relation.TransGen.single hfirst) hsecond⟩
  obtain ⟨st, hreach, hdead⟩ := deadlock_of_crossesAt hcross
  exact h sampleReceives st hreach hdead

end StockManager
