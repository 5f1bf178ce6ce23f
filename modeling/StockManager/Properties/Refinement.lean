import StockManager.Effects.Balance

/-! # The ledger refines a map of balances

The services that write on-hand rows, over the map from buckets to quantities
they stand for. Each successful call moves the re-summed balance as its abstract
movements do; a call that raises leaves the ledger as it was. -/

namespace StockManager

open Movement

variable {db db' : Db} {lots : List Lot} {quantity : Decimal} {e : StockEntry}

/-- Source and destination bucket of a move. -/
def MoveStockIn.source (workspaceId : Uuid) (payload : MoveStockIn) : Bucket :=
  ⟨workspaceId, some payload.partId, payload.sourceLotId, payload.sourceStorageLocationId⟩

def MoveStockIn.dest (workspaceId : Uuid) (payload : MoveStockIn) (lotId : Option Uuid) : Bucket :=
  ⟨workspaceId, some payload.partId, lotId, some payload.destinationStorageLocationId⟩

/-- What an operation is for: its movements of the balance map, given the lots it
creates. An addition goes to the NULL lot or to the lot it creates, a split move
to the child lot, and a correction that finds the booked quantity is nothing. -/
inductive Meaning (ctx : Ctx) (db : Db) :
    LedgerOp → List Lot → List (Movement Bucket Decimal) → Prop
  | add (payload : AddStockIn) : Meaning ctx db (.addStock payload) []
      [.credit ⟨ctx.workspaceId, some payload.partId, none, payload.storageLocationId⟩
        payload.quantity]
  | addLot (payload : AddStockIn) (lot : Lot) : Meaning ctx db (.addStock payload) [lot]
      [.credit ⟨ctx.workspaceId, some payload.partId, some lot.id, payload.storageLocationId⟩
        payload.quantity]
  | remove (payload : RemoveStockIn) : Meaning ctx db (.removeStock payload) []
      [.debit ⟨ctx.workspaceId, some payload.partId, payload.lotId, payload.storageLocationId⟩
        payload.quantity]
  | move (payload : MoveStockIn) (h : ¬ (payload.splitLot = true ∧ payload.sourceLotId.isSome)) :
      Meaning ctx db (.moveStock payload) []
        [.transfer (payload.source ctx.workspaceId)
          (payload.dest ctx.workspaceId payload.sourceLotId) payload.quantity]
  | split (payload : MoveStockIn) (lot : Lot)
      (h : payload.splitLot = true ∧ payload.sourceLotId.isSome)
      (hparent : lot.parentLotId = payload.sourceLotId) :
      Meaning ctx db (.moveStock payload) [lot]
        [.transfer (payload.source ctx.workspaceId)
          (payload.dest ctx.workspaceId (some lot.id)) payload.quantity]
  | moveQuantity (args : MoveQuantityArgs) : Meaning ctx db (.moveQuantity args) []
      [.transfer
        ⟨ctx.workspaceId, some args.partId, args.sourceLotId, args.sourceStorageLocationId⟩
        ⟨ctx.workspaceId, some args.partId, args.sourceLotId,
          some args.destinationStorageLocationId⟩ args.quantity]
  | adjustSame (payload : AdjustStockIn)
      (h : balance db.stockEntries (payload.bucket ctx.workspaceId) = payload.actualQuantity) :
      Meaning ctx db (.adjustStock payload) [] []
  | adjust (payload : AdjustStockIn)
      (h : balance db.stockEntries (payload.bucket ctx.workspaceId) ≠ payload.actualQuantity) :
      Meaning ctx db (.adjustStock payload) []
        [.setTo (payload.bucket ctx.workspaceId) payload.actualQuantity]
  | receive (order : Order) (payload : ReceiveIn) (lots : List Lot)
      (h : List.Forall₂ (fun line lot => ∃ oe ∈ orderEntriesOf db ctx.workspaceId order.id,
        oe.id = line.orderEntryId ∧ oe.partId = lot.partId) payload.lines lots) :
      Meaning ctx db (.receive order payload) lots
        (List.zipWith (fun line lot => .credit
          ⟨ctx.workspaceId, lot.partId, some lot.id, line.storageLocationId⟩ line.quantity)
          payload.lines lots)
  | consume (args : ConsumeLinesArgs) : Meaning ctx db (.applyConsumeLines args) []
      (args.lines.map fun line => .debit (line.bucket ctx.workspaceId) line.quantity)

/-- `db'` is `db` after the movements: on-hand rows are appended, one for each
account a movement names, and nothing else of the ledger changes. -/
structure Performs (db db' : Db) (lots : List Lot) (moves : List (Movement Bucket Decimal)) :
    Prop where
  newRows : ∃ rows, db'.stockEntries = db.stockEntries ++ rows ∧
    (∀ r ∈ rows, r.status = .onHand) ∧ rows.length = (moves.flatMap accounts).length
  newLots : db'.lots = db.lots ++ lots
  freshLots : (lots.map (·.id)).Nodup ∧ ∀ lot ∈ lots, ∀ r ∈ db.lots, r.id ≠ lot.id
  moved : balance db'.stockEntries = applyAll (balance db.stockEntries) moves

theorem Performs.nil (h : SameLedger db db') : Performs db db' [] [] where
  newRows := ⟨[], by simp [h.stockEntries], by simp, rfl⟩
  newLots := by simp [h.lots]
  freshLots := ⟨List.nodup_nil, by simp⟩
  moved := by rw [h.stockEntries]; rfl

theorem Performs.append {a b c : Db} {lots more : List Lot}
    {moves rest : List (Movement Bucket Decimal)} (h : Performs a b lots moves)
    (k : Performs b c more rest) : Performs a c (lots ++ more) (moves ++ rest) := by
  obtain ⟨rows, hrows, hstatus, hlength⟩ := h.newRows
  obtain ⟨rows', hrows', hstatus', hlength'⟩ := k.newRows
  have hfresh := k.freshLots.2
  simp only [h.newLots, List.mem_append, or_imp, forall_and] at hfresh
  constructor
  case newRows =>
    refine ⟨rows ++ rows', by rw [hrows', hrows, List.append_assoc], ?_, ?_⟩
    · intro r hr
      rcases List.mem_append.mp hr with hr | hr
      · exact hstatus r hr
      · exact hstatus' r hr
    · simp [List.flatMap_append, hlength, hlength']
  case newLots => rw [k.newLots, h.newLots, List.append_assoc]
  case freshLots =>
    refine ⟨?_, ?_⟩
    · rw [List.map_append, List.nodup_append]
      refine ⟨h.freshLots.1, k.freshLots.1, ?_⟩
      intro i hi j hj hij
      obtain ⟨x, hx, rfl⟩ := List.mem_map.mp hi
      obtain ⟨y, hy, rfl⟩ := List.mem_map.mp hj
      exact hfresh.2 y hy x hx hij
    · intro lot hlot r hr
      rcases List.mem_append.mp hlot with hlot | hlot
      · exact h.freshLots.2 lot hlot r hr
      · exact hfresh.1 lot hlot r hr
  case moved => rw [k.moved, h.moved, applyAll, applyAll, applyAll, List.foldl_append]

theorem FreshLot.list {workspaceId partId : Uuid}
    (h : lots = [] ∨ ∃ lot, lots = [lot] ∧ FreshLot db workspaceId partId lot) :
    (lots.map (·.id)).Nodup ∧ ∀ lot ∈ lots, ∀ r ∈ db.lots, r.id ≠ lot.id := by
  obtain rfl | ⟨lot, rfl, hlot⟩ := h
  · exact ⟨List.nodup_nil, by simp⟩
  · exact ⟨by simp, by simpa using hlot.fresh⟩

theorem Produced.performs {workspaceId partId : Uuid} {storageId : Option Uuid}
    (h : Produced db workspaceId partId storageId quantity lots e)
    (hlots : db'.lots = db.lots ++ lots) (hrows : db'.stockEntries = db.stockEntries ++ [e]) :
    Performs db db' lots [.credit e.bucket quantity] where
  newRows := ⟨[e], hrows, by simp [h.status], rfl⟩
  newLots := hlots
  freshLots := FreshLot.list h.lots
  moved := by rw [hrows, h.balance]; rfl

theorem Drawn.performs {b : Bucket}
    (h : Drawn db b quantity e) (hdb : db' = { db with stockEntries := db.stockEntries ++ [e] }) :
    Performs db db' [] [.debit b quantity] where
  newRows := ⟨[e], by rw [hdb], by simp [h.status], rfl⟩
  newLots := by simp [hdb]
  freshLots := ⟨List.nodup_nil, by simp⟩
  moved := by rw [hdb, h.balance]; rfl

theorem MovedPair.performs {workspaceId partId dest : Uuid} {source : Option Uuid × Option Uuid}
    {outEntry inEntry : StockEntry}
    (h : MovedPair db workspaceId partId source dest quantity lots outEntry inEntry)
    (hlots : db'.lots = db.lots ++ lots)
    (hrows : db'.stockEntries = db.stockEntries ++ [outEntry, inEntry]) :
    Performs db db' lots [.transfer outEntry.bucket inEntry.bucket quantity] where
  newRows := ⟨[outEntry, inEntry], hrows, by simp [h.outStatus, h.inStatus], rfl⟩
  newLots := hlots
  freshLots := FreshLot.list h.lots
  moved := by rw [hrows, h.balance]; rfl

section Operations

variable {ctx : Ctx} {db db' : Db}

theorem addStock_refines {payload : AddStockIn} (h : addStock ctx db payload = .ok (e, db')) :
    ∃ lots moves, Meaning ctx db (.addStock payload) lots moves ∧ Performs db db' lots moves := by
  obtain ⟨lots, hdb, hproduced⟩ := addStock_rows h
  have hperforms : Performs db db' lots _ := hproduced.performs (by rw [hdb]) (by rw [hdb])
  rw [hproduced.bucket] at hperforms
  obtain rfl | ⟨lot, rfl, _⟩ := hproduced.lots
  · exact ⟨_, _, .add payload, hperforms⟩
  · exact ⟨_, _, .addLot payload lot, hperforms⟩

theorem moveStock_refines {payload : MoveStockIn} {outEntry inEntry : StockEntry}
    (h : moveStock ctx db payload = .ok ((outEntry, inEntry), db')) :
    ∃ lots moves, Meaning ctx db (.moveStock payload) lots moves ∧ Performs db db' lots moves := by
  obtain ⟨lots, hdb, hsplit, hparent, hmoved⟩ := moveStock_rows h
  have hperforms : Performs db db' lots _ := hmoved.performs (by rw [hdb]) (by rw [hdb])
  rw [hmoved.outBucket, hmoved.inBucket] at hperforms
  obtain rfl | ⟨lot, rfl, _⟩ := hmoved.lots
  · exact ⟨_, _, .move payload (fun hsome => hsplit.mpr hsome rfl), hperforms⟩
  · exact ⟨_, _, .split payload lot (hsplit.mp (by simp)) (hparent lot (by simp)),
      hperforms⟩

theorem adjustStock_refines {payload : AdjustStockIn} {e : Option StockEntry}
    (h : adjustStock ctx db payload = .ok (e, db')) :
    ∃ lots moves, Meaning ctx db (.adjustStock payload) lots moves ∧
      Performs db db' lots moves := by
  obtain ⟨rfl, hnone, hrecounted⟩ := adjustStock_rows h
  cases e with
  | none => exact ⟨_, _, .adjustSame payload (hnone.mp rfl), .nil ⟨rfl, rfl, by simp⟩⟩
  | some e =>
    have hrow := hrecounted e rfl
    refine ⟨_, _, .adjust payload (fun heq => ?_), ?_⟩
    · exact absurd (hnone.mpr heq) (by simp)
    · exact
        { newRows := ⟨[e], rfl, by simp [hrow.status], rfl⟩
          newLots := by simp
          freshLots := ⟨List.nodup_nil, by simp⟩
          moved := hrow.balance }

theorem receiveLines_refines {order : Order} {serialTrackingOn : Bool} {receivedAt : Timestamp}
    {lines : List ReceiveLineIn} {written : List (Lot × StockEntry)}
    (h : receiveLines ctx db order serialTrackingOn receivedAt lines = .ok (written, db')) :
    ∃ lots, List.Forall₂ (fun line lot => ∃ oe ∈ orderEntriesOf db ctx.workspaceId order.id,
        oe.id = line.orderEntryId ∧ oe.partId = lot.partId) lines lots ∧
      Performs db db' lots (List.zipWith (fun line lot => .credit
        ⟨ctx.workspaceId, lot.partId, some lot.id, line.storageLocationId⟩ line.quantity)
        lines lots) := by
  induction lines generalizing ctx db written with
  | nil =>
    simp only [receiveLines, Except.ok.injEq, Prod.mk.injEq] at h
    exact ⟨[], .nil, h.2 ▸ .nil ⟨rfl, rfl, rfl⟩⟩
  | cons line lines ih =>
    simp only [receiveLines, Outcome.bind_ok, Outcome.pure_ok, Prod.mk.injEq] at h
    obtain ⟨⟨⟨lot, e⟩, db₁⟩, hline, ⟨others, db₂⟩, hrest, _, rfl⟩ := h
    obtain ⟨oe, hoe, hid, partId, hpart, hkeep, orderEntries, hdb, hproduced⟩ :=
      receiveLine_rows hline
    obtain ⟨lots, hlots, hperforms⟩ := ih hrest
    have hlot : lot.partId = some partId := by
      obtain hnil | ⟨l, hl, hfresh⟩ := hproduced.lots
      · cases hnil
      · obtain rfl := List.singleton_injective hl
        exact hfresh.part
    have hfirst : Performs db db₁ [lot] _ := hproduced.performs (by rw [hdb]) (by rw [hdb])
    rw [hproduced.bucket, ← hlot] at hfirst
    refine ⟨lot :: lots, .cons ⟨oe, hoe, hid, hpart.trans hlot.symm⟩ ?_,
      hfirst.append hperforms⟩
    refine hlots.imp ?_
    rintro l c ⟨x, hx, hxid, hxpart⟩
    obtain ⟨y, hy, hyid, hypart⟩ := hkeep x hx
    exact ⟨y, hy, hyid.trans hxid, hypart.trans hxpart⟩

theorem receive_refines {order : Order} {payload : ReceiveIn} {result : ReceiveResult}
    (h : receive ctx db order payload = .ok (result, db')) :
    ∃ lots moves, Meaning ctx db (.receive order payload) lots moves ∧
      Performs db db' lots moves := by
  simp only [receive, Outcome.bind_ok, Outcome.check_ok, exists_const, Outcome.pure_ok,
    Prod.mk.injEq] at h
  obtain ⟨_, ⟨written, db₁⟩, hlines, _, rfl⟩ := h
  obtain ⟨lots, hlots, hperforms⟩ := receiveLines_refines hlines
  refine ⟨lots, _, .receive order payload lots hlots, ?_⟩
  exact
    { newRows := hperforms.newRows
      newLots := hperforms.newLots
      freshLots := hperforms.freshLots
      moved := hperforms.moved }

theorem consumeLines_refines {build : Build} {project : Project}
    {entriesById : List (Uuid × ProjectEntry)} {requiredByEntry : List (Uuid × ℤ)}
    {now : Timestamp} {buildStageId : Option Uuid} {lines : List ConsumeLineIn}
    {rows : List StockEntry}
    (h : consumeLines ctx db build project entriesById requiredByEntry now buildStageId lines =
      .ok (rows, db')) :
    Performs db db' []
      (lines.map fun line => .debit (line.bucket ctx.workspaceId) line.quantity) := by
  induction lines generalizing ctx db rows with
  | nil =>
    simp only [consumeLines, Except.ok.injEq, Prod.mk.injEq] at h
    exact h.2 ▸ .nil ⟨rfl, rfl, rfl⟩
  | cons line lines ih =>
    simp only [consumeLines, Outcome.bind_ok, Outcome.pure_ok, Prod.mk.injEq] at h
    obtain ⟨⟨e, db₁⟩, hline, ⟨others, db₂⟩, hrest, _, rfl⟩ := h
    obtain ⟨hinsert, hdrawn, _⟩ := consumeLine_rows hline
    have hnext := ih hrest
    exact (hdrawn.performs (insertStockEntry_ok.mp hinsert).2).append hnext

theorem ledgerOp_refines {op : LedgerOp} (h : op.exec ctx db = .ok db') :
    ∃ lots moves, Meaning ctx db op lots moves ∧ Performs db db' lots moves := by
  cases op with
  | addStock payload =>
    obtain ⟨⟨e, _⟩, hop, rfl⟩ := Outcome.map_ok.mp h
    exact addStock_refines hop
  | removeStock payload =>
    obtain ⟨⟨e, _⟩, hop, rfl⟩ := Outcome.map_ok.mp h
    obtain ⟨hdb, hdrawn⟩ := removeStock_rows hop
    exact ⟨_, _, .remove payload, hdrawn.performs hdb⟩
  | moveStock payload =>
    obtain ⟨⟨⟨outEntry, inEntry⟩, _⟩, hop, rfl⟩ := Outcome.map_ok.mp h
    exact moveStock_refines hop
  | moveQuantity args =>
    obtain ⟨⟨⟨outEntry, inEntry⟩, db₁⟩, hop, rfl⟩ := Outcome.map_ok.mp h
    obtain ⟨hdb, hmoved⟩ := moveQuantity_rows hop
    have hperforms : Performs db db₁ [] _ := hmoved.performs (by simp [hdb]) (by rw [hdb])
    rw [hmoved.outBucket, hmoved.inBucket] at hperforms
    exact ⟨_, _, .moveQuantity args, hperforms⟩
  | adjustStock payload =>
    obtain ⟨⟨e, _⟩, hop, rfl⟩ := Outcome.map_ok.mp h
    exact adjustStock_refines hop
  | receive order payload =>
    obtain ⟨⟨result, _⟩, hop, rfl⟩ := Outcome.map_ok.mp h
    exact receive_refines hop
  | applyConsumeLines args =>
    obtain ⟨⟨rows, _⟩, hop, rfl⟩ := Outcome.map_ok.mp h
    exact ⟨_, _, .consume args, consumeLines_refines (applyConsumeLines_ok hop)⟩

end Operations

theorem runCalls_snoc (db : Db) (calls : List Call) (call : Call) :
    runCalls db (calls ++ [call]) =
      Outcome.settle (runCalls db calls) (exec call (runCalls db calls)) := by
  simp [runCalls, Outcome.run]

/-- After any run from an empty ledger no bucket is negative, and the next
operation either raises and changes nothing or performs what it means: the
buckets its movements name change as they say, no other bucket does, and every
row it appends is an on-hand row. -/
theorem ledger_refines_balances (db₀ : Db) (hempty : db₀.stockEntries = [])
    (calls : List Call) (ctx : Ctx) (op : LedgerOp) :
    NonNegative (runCalls db₀ calls) ∧
      ((∃ err, op.exec ctx (runCalls db₀ calls) = .error err ∧
          runCalls db₀ (calls ++ [⟨ctx, .ledger op⟩]) = runCalls db₀ calls) ∨
        ∃ db', op.exec ctx (runCalls db₀ calls) = .ok db' ∧
          runCalls db₀ (calls ++ [⟨ctx, .ledger op⟩]) = db' ∧
          ∃ lots moves, Meaning ctx (runCalls db₀ calls) op lots moves ∧
            Performs (runCalls db₀ calls) db' lots moves ∧
            ∀ b, (∀ mv ∈ moves, b ∉ mv.accounts) →
              balance db'.stockEntries b = balance (runCalls db₀ calls).stockEntries b) := by
  have hzero : NonNegative db₀ := fun b => by simp [hempty]
  refine ⟨runCalls_nonNegative hzero calls, ?_⟩
  have hnext := runCalls_snoc db₀ calls ⟨ctx, .ledger op⟩
  generalize runCalls db₀ calls = db at *
  cases hexec : op.exec ctx db with
  | error err =>
    left
    refine ⟨err, rfl, ?_⟩
    rw [hnext]
    simp [exec, hexec, Outcome.settle]
  | ok db' =>
    right
    obtain ⟨lots, moves, hmeaning, hperforms⟩ := ledgerOp_refines hexec
    refine ⟨db', rfl, ?_, lots, moves, hmeaning, hperforms, ?_⟩
    · rw [hnext]
      simp [exec, hexec, Outcome.settle]
    · intro b hb
      rw [hperforms.moved]
      exact applyAll_frame hb

/-- Five bolts are added; a count of seven then performs its correction. -/
theorem ledger_refines_balances_sample :
    ∃ db' lots moves,
      (sampleAdjust 10 20 none 7).exec (sampleCtx 200)
        (runCalls sampleDb [⟨sampleCtx 100, .ledger (sampleAdd 10 20 5 false (by decide))⟩]) = .ok db' ∧
      Performs (runCalls sampleDb [⟨sampleCtx 100, .ledger (sampleAdd 10 20 5 false (by decide))⟩]) db'
        lots moves := by
  obtain ⟨err, herr, _⟩ | ⟨db', hok, _, lots, moves, _, hperforms, _⟩ :=
    (ledger_refines_balances sampleDb rfl
      [⟨sampleCtx 100, .ledger (sampleAdd 10 20 5 false (by decide))⟩] (sampleCtx 200)
      (sampleAdjust 10 20 none 7)).2
  · have hsome : ((sampleAdjust 10 20 none 7).exec (sampleCtx 200) (runCalls sampleDb
        [⟨sampleCtx 100, .ledger (sampleAdd 10 20 5 false (by decide))⟩])).toOption.isSome := by
      decide +kernel
    rw [herr] at hsome
    cases hsome
  · exact ⟨db', lots, moves, hok, hperforms⟩

end StockManager
