import StockManager.Effects.Requests
import StockManager.Library.Movements

/-! # Rows as movements of the balance

Each kind of row an operation appends moves the balance as the abstract
movement of the same name does, and the movement is admissible. -/

namespace StockManager

open Movement

variable {db : Db} {workspaceId partId : Uuid} {storageId : Option Uuid} {quantity : Decimal}
  {lots : List Lot} {e outEntry inEntry : StockEntry} {b : Bucket}
variable {db db' : Db} {Recount : Db → Bucket → Decimal → Prop}

theorem balance_append_row {rows : List StockEntry} {q : Decimal} (hbucket : e.bucket = b)
    (hstatus : e.status = .onHand) (hdelta : e.quantityDelta = q) :
    balance (rows ++ [e]) = apply (balance rows) (.credit b q) := by
  funext k
  rw [balance_append, balance_singleton, hbucket, hdelta]
  by_cases hk : k = b
  · simp [apply, hk, hstatus]
  · simp [apply, hk, Ne.symm hk]

theorem apply_debit (m : Bucket → Decimal) (b : Bucket) (q : Decimal) :
    apply m (.credit b (-q)) = apply m (.debit b q) := by
  simp [apply, sub_eq_add_neg]

theorem Produced.balance (h : Produced db workspaceId partId storageId quantity lots e) :
    balance (db.stockEntries ++ [e]) =
      apply (StockManager.balance db.stockEntries) (.credit e.bucket quantity) :=
  balance_append_row rfl h.status h.delta

theorem Drawn.balance (h : Drawn db b quantity e) :
    balance (db.stockEntries ++ [e]) =
      apply (StockManager.balance db.stockEntries) (.debit b quantity) := by
  rw [balance_append_row h.bucket h.status h.delta, apply_debit]

theorem MovedPair.balance {source : Option Uuid × Option Uuid} {dest : Uuid}
    (h : MovedPair db workspaceId partId source dest quantity lots outEntry inEntry) :
    balance (db.stockEntries ++ [outEntry, inEntry]) = apply (StockManager.balance db.stockEntries)
      (.transfer outEntry.bucket inEntry.bucket quantity) := by
  have hsplit : db.stockEntries ++ [outEntry, inEntry] =
      (db.stockEntries ++ [outEntry]) ++ [inEntry] := by simp
  rw [hsplit, balance_append_row rfl h.inStatus h.inDelta,
    balance_append_row rfl h.outStatus h.outDelta, apply_debit]
  rfl

theorem Recounted.balance {actual : Decimal} (h : Recounted db b actual e) :
    balance (db.stockEntries ++ [e]) =
      apply (StockManager.balance db.stockEntries) (.setTo b actual) := by
  rw [balance_append_row h.bucket h.status h.delta]
  simp [apply]

theorem balance_append_reserved {rows more : List StockEntry}
    (h : ∀ e ∈ more, e.status = .reserved) : balance (rows ++ more) = balance rows := by
  funext k
  rw [balance_append]
  have hzero : balance more k = 0 := Tally.tally_eq_zero _ _ fun r hr => by simp [h r hr]
  rw [hzero, add_zero]

def NonNegative (db : Db) : Prop := ∀ b, 0 ≤ balance db.stockEntries b

theorem stockStep_nonNegative
    (hstep : StockStep Recount db db') (h : NonNegative db) : NonNegative db' := by
  cases hstep with
  | produced hrow hpos =>
    intro k
    rw [hrow.balance]
    refine nonneg_apply h ?_ k
    exact le_of_lt hpos
  | drawn hrow hpos =>
    intro k
    rw [hrow.balance]
    refine nonneg_apply h ?_ k
    exact hrow.available
  | moved hpair hpos =>
    intro k
    rw [hpair.balance]
    refine nonneg_apply h ?_ k
    exact ⟨le_of_lt hpos, hpair.available⟩
  | recounted hrow hnonneg _ _ =>
    intro k
    rw [hrow.balance]
    refine nonneg_apply h ?_ k
    exact hnonneg
  | patched => exact h
  | archived => exact h
  | restored => exact h
  | created => exact h
  | elsewhere hsame _ =>
    intro k
    rw [hsame.stockEntries]
    exact h k

theorem ledgerStep_nonNegative
    (hstep : LedgerStep Recount db db') (h : NonNegative db) : NonNegative db' := by
  cases hstep with
  | stock hstock => exact stockStep_nonNegative hstock h
  | noted happends hrows =>
    intro k
    rw [happends.eq, balance_append_reserved fun e he => (hrows e he).1]
    exact h k
  | builds hsame =>
    intro k
    rw [hsame.stockEntries]
    exact h k

theorem ledgerChain_invariant {I : Db → Prop}
    (hstep : ∀ db db', LedgerStep Recount db db' → I db → I db')
    (hchain : LedgerChain Recount db db') (h : I db) : I db' := by
  induction hchain with
  | refl => exact h
  | tail _ hlast ih => exact hstep _ _ hlast ih

/-- What every ledger step keeps, every run keeps whose accepted corrections meet the condition. -/
theorem runCalls_invariant {I : Db → Prop}
    (hstep : ∀ db db', LedgerStep Recount db db' → I db → I db') {calls : List Call}
    (hmeets : Outcome.Meets exec (Outcome.Accepted exec (AdjustMeets Recount)) db calls) (h : I db) :
    I (runCalls db calls) :=
  Outcome.run_invariant_of_accepted
    (fun _ _ _ hI hcond hexec => ledgerChain_invariant hstep (exec_chain hcond hexec) hI) h hmeets

theorem meets_of_forall {cond : Call → Db → Prop} (hall : ∀ call db, cond call db) (db : Db)
    (calls : List Call) : Outcome.Meets exec cond db calls := by
  induction calls generalizing db with
  | nil => trivial
  | cons call calls ih => exact ⟨hall call db, ih _⟩

theorem adjustMeets_true (call : Call) (db : Db) : AdjustMeets (fun _ _ _ => True) call db := by
  unfold AdjustMeets
  split
  next => trivial
  next => trivial

theorem runCalls_nonNegative (h : NonNegative db) (calls : List Call) :
    NonNegative (runCalls db calls) :=
  runCalls_invariant (fun _ _ => ledgerStep_nonNegative)
    (meets_of_forall (fun call m _ => adjustMeets_true call m) db calls) h

end StockManager
