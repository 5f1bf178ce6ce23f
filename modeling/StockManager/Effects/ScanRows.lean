import StockManager.Effects.StockRows
import StockManager.Model.ScanImport

/-! # What a scan import writes

A row that is reported as created leaves its part and at most one stock entry; any
other row leaves nothing. The savepoints of a row undo what it wrote before it
raised. -/

namespace StockManager.Scans

open Savepoints

variable {providerName mpn : String} {events : RowEvents} {s t u : ScanState}
  {Q : Unit → List ScanWrite → ScanState → Prop} {writes left : List ScanWrite}
  {workspaceId partId : Uuid} {o : RowOutcome} {r : ProviderRecord} {d : Digests ScanImportRow}
variable {rows : List ScanImportRow} {payload : AddStockIn} {lookup : Lookup} {response : Response}

def entriesOf (writes : List ScanWrite) : List StockEntry :=
  writes.filterMap fun
    | .insertStockEntry row => some row
    | _ => none

def partIdsOf (writes : List ScanWrite) : List Uuid :=
  writes.filterMap fun
    | .insertPart part _ => some part.id
    | _ => none

def sweptBy (writes : List ScanWrite) : List CacheRow :=
  writes.flatMap fun
    | .sweep rows => rows
    | _ => []

@[simp] theorem entriesOf_append (xs ys : List ScanWrite) :
    entriesOf (xs ++ ys) = entriesOf xs ++ entriesOf ys := List.filterMap_append ..

@[simp] theorem partIdsOf_append (xs ys : List ScanWrite) :
    partIdsOf (xs ++ ys) = partIdsOf xs ++ partIdsOf ys := List.filterMap_append ..

@[simp] theorem sweptBy_append (xs ys : List ScanWrite) :
    sweptBy (xs ++ ys) = sweptBy xs ++ sweptBy ys := List.flatMap_append ..

theorem applyAll_entries (writes : List ScanWrite) (s : ScanState) :
    (store.applyAll writes s).db.stockEntries = s.db.stockEntries ++ entriesOf writes := by
  induction writes generalizing s with
  | nil => simp [entriesOf]
  | cons o writes ih =>
    rw [Store.applyAll_cons, ih]
    cases o <;> simp [store, ScanWrite.apply, ScanWrite.describe, entriesOf]

theorem applyAll_partIds (writes : List ScanWrite) (s : ScanState) :
    (store.applyAll writes s).db.parts.map (·.id) = s.db.parts.map (·.id) ++ partIdsOf writes := by
  induction writes generalizing s with
  | nil => simp [partIdsOf]
  | cons o writes ih =>
    rw [Store.applyAll_cons, ih]
    cases o with
    | describePart partId d =>
      have hid : ∀ p : Part, (if p.id = partId then { p with name := d.name.getD p.name } else p).id
          = p.id := by
        intro p
        split <;> rfl
      simp [store, ScanWrite.apply, ScanWrite.describe, partIdsOf, hid]
    | _ => simp [store, ScanWrite.apply, partIdsOf]

theorem applyAll_now (writes : List ScanWrite) (s : ScanState) :
    (store.applyAll writes s).now = s.now := by
  induction writes generalizing s with
  | nil => rfl
  | cons o writes ih =>
    rw [Store.applyAll_cons, ih]
    cases o <;> rfl

theorem mem_applyAll_cache {row : CacheRow}
    (h : row ∈ s.cache) (hkept : row ∉ sweptBy writes) : row ∈ (store.applyAll writes s).cache := by
  induction writes generalizing s with
  | nil => exact h
  | cons o writes ih =>
    have hrest : row ∉ sweptBy writes := fun hmem => hkept (List.mem_append_right _ hmem)
    refine ih ?_ hrest
    cases o with
    | sweep rows =>
      have hrow : row ∉ rows := fun hmem => hkept (List.mem_append_left _ hmem)
      exact List.mem_filter.mpr ⟨h, decide_eq_true hrow⟩
    | insertCache new => exact List.mem_append_left _ h
    | _ => exact h

/-- The stock a new part begins with. -/
inductive StockLeft (workspaceId partId : Uuid) (row : ScanImportRow) : ℕ → List ScanWrite → Prop
  | nothing : StockLeft workspaceId partId row 0 []
  | added {quantity : ℕ} {lot : Option Lot} {e : StockEntry} (asked : row.quantity = some quantity)
    (positive : 0 < quantity) (workspace : e.workspaceId = workspaceId)
    (part : e.partId = some partId) (delta : e.quantityDelta = quantity)
    (bag : e.bagSignature = row.bagSignature) :
    StockLeft workspaceId partId row quantity
      ((lot.map .insertLot).toList ++ [.insertStockEntry e])

inductive RowLeft (workspaceId : Uuid) (row : ScanImportRow) : RowOutcome → List ScanWrite → Prop
  | nothing {o : RowOutcome} (h : o.status ≠ .created) : RowLeft workspaceId row o []
  | created {c : CreatedRow} {part : Part} {columns : PartColumns} {described : Described}
    {stock : List ScanWrite} (id : part.id = c.partId) (workspace : part.workspaceId = workspaceId)
    (stock_left : StockLeft workspaceId c.partId row c.quantityAdded stock) :
    RowLeft workspaceId row (.created c)
      (.insertPart part columns :: .describePart part.id described :: stock)

/-- One result for each row, in their order, and the writes of the rows one after another. -/
inductive RowsLeft (workspaceId : Uuid) :
    List ScanImportRow → List RowResult → List ScanWrite → Prop
  | nil : RowsLeft workspaceId [] [] []
  | cons {row : ScanImportRow} {result : RowResult} {left : List ScanWrite}
    {rows : List ScanImportRow} {results : List RowResult} {more : List ScanWrite}
    (first : RowLeft workspaceId row result.outcome left)
    (rest : RowsLeft workspaceId rows results more) :
    RowsLeft workspaceId (row :: rows) (result :: results) (left ++ more)

theorem StockLeft.swept {row : ScanImportRow} {quantity : ℕ}
    (h : StockLeft workspaceId partId row quantity left) :
    sweptBy left = [] := by
  cases h with
  | nothing => rfl
  | @added quantity lot e asked positive workspace part delta bag => cases lot <;> rfl

theorem RowLeft.swept {row : ScanImportRow}
    (h : RowLeft workspaceId row o left) : sweptBy left = [] := by
  cases h with
  | nothing h => rfl
  | created id workspace stock_left => exact stock_left.swept

theorem RowsLeft.swept {results : List RowResult}
    (h : RowsLeft workspaceId rows results left) : sweptBy left = [] := by
  induction h with
  | nil => rfl
  | cons first rest ih => rw [sweptBy_append, first.swept, ih, List.append_nil]

variable {ι : Type} {P : Protocol ι ScanState ScanWrite Response} {i : ι}
  {writes : List ScanWrite} {s : ScanState} {ctx : Ctx} {row : ScanImportRow}
  {E : ScanError → List ScanWrite → ScanState → Prop}

theorem wp_flush {o : ScanWrite}
    (hQ : ∀ t, Later P i s t → Q () (writes ++ [o]) t) (hE : ∀ e t, Later P i s t → E e writes t) :
    wp store P i (flush o) Q E writes s :=
  wp_put.mpr fun t ht => ⟨fun _ => hQ t ht, fun _ _ => hE _ t ht⟩

theorem wp_mayRaise {refused : Option String} (hQ : Q () writes s) (hE : ∀ e, E e writes s) :
    wp store P i (mayRaise refused) Q E writes s := by
  cases refused with
  | none => exact hQ
  | some message => exact hE _

theorem wp_createFromProviderLookup {Q : Part × Option String → List ScanWrite → ScanState → Prop}
    (hQ : ∀ part columns described suggestion t, Later P i s t → part.workspaceId = ctx.workspaceId →
      Q (part, suggestion) (writes ++ [.insertPart part columns, .describePart part.id described]) t)
    (hE : ∀ e more t, Later P i s t → E e (writes ++ more) t) (hs : Later P i s s) :
    wp store P i (createFromProviderLookup ctx providerName row mpn r events) Q E writes s := by
  unfold createFromProviderLookup
  simp only [wp_bind, wp_ofExcept, wp_pure]
  have hnone : ∀ e t, Later P i s t → E e writes t := fun e t ht => by
    simpa using hE e [] t ht
  refine wp_mayRaise ?_ fun e => hnone e s hs
  refine wp_flush (fun t ht => ⟨fun described _ => ?_, fun e _ => hE e _ t ht⟩) hnone
  refine wp_flush (fun u hu => ?_) fun e u hu => hE e _ u (ht.trans hu)
  rw [List.append_assoc]
  exact hQ _ _ described _ u (ht.trans hu) rfl

theorem addStock_bagSignature {db db' : Db} {e : StockEntry}
    (h : addStock ctx db payload = .ok (e, db')) : e.bagSignature = payload.bagSignature := by
  simp only [addStock, Outcome.bind_ok, Outcome.check_ok, exists_const, Outcome.pure_ok,
    partInWorkspace_ok, insertStockEntry_ok, Prod.exists, Prod.mk.injEq] at h
  obtain ⟨part, _, storage, _, _, _, _, lot, db₁, _, _, _, rfl, _⟩ := h
  rfl

theorem wp_addStockRows
    (hQ : ∀ (lot : Option Lot) e t, Later P i s t → e.workspaceId = ctx.workspaceId →
      e.partId = some payload.partId → e.quantityDelta = (payload.quantity : Decimal) →
      e.bagSignature = payload.bagSignature →
      Q () (writes ++ ((lot.map ScanWrite.insertLot).toList ++ [.insertStockEntry e])) t)
    (hE : ∀ e more t, Later P i s t → E e (writes ++ more) t) :
    wp store P i (addStockRows ctx payload) Q E writes s := by
  unfold addStockRows
  simp only [wp_bind, wp_ask, wp_ofExcept]
  intro t ht
  have hnone : ∀ e u, Later P i s u → E e writes u := fun e u hu => by
    simpa using hE e [] u hu
  refine ⟨?_, fun e _ => hnone e t ht⟩
  rintro ⟨lots, e⟩ hadded
  cases hadd : addStock ctx (store.applyAll writes t).db payload with
  | error e' => simp [hadd, Except.map, Except.mapError] at hadded
  | ok result =>
    obtain ⟨e', db'⟩ := result
    obtain ⟨rows, hdb, hproduced⟩ := addStock_rows hadd
    have hlots : db'.lots.drop (store.applyAll writes t).db.lots.length = rows := by
      rw [hdb]
      exact List.drop_left
    simp only [hadd, Except.map, Except.mapError, Except.ok.injEq, Prod.mk.injEq, hlots] at hadded
    obtain ⟨rfl, rfl⟩ := hadded
    have hbucket := hproduced.bucket
    simp only [StockEntry.bucket, Bucket.mk.injEq] at hbucket
    have hlast : ∀ u, Later P i s u → Q () (writes ++ ((rows.head?.map ScanWrite.insertLot).toList ++
        [.insertStockEntry e'])) u := fun u hu =>
      hQ rows.head? e' u hu hbucket.1 hbucket.2.1 hproduced.delta (addStock_bagSignature hadd)
    cases hlot : rows.head? with
    | none =>
      rw [hlot] at hlast
      exact wp_flush (fun u hu => hlast u (ht.trans hu)) fun e u hu => hnone e u (ht.trans hu)
    | some lot =>
      rw [hlot] at hlast
      refine wp_flush (fun u hu => ?_) fun e u hu => hnone e u (ht.trans hu)
      refine wp_flush (fun v hv => ?_) fun e v hv => hE e _ v ((ht.trans hu).trans hv)
      rw [List.append_assoc]
      exact hlast v ((ht.trans hu).trans hv)

theorem wp_initialStock {part : Part} {Q : ℕ × Option String → List ScanWrite → ScanState → Prop}
    (hQ : ∀ quantity message stock t, Later P i s t →
      StockLeft ctx.workspaceId part.id row quantity stock → Q (quantity, message) (writes ++ stock) t)
    (hE : ∀ e more t, Later P i s t → E e (writes ++ more) t) (hs : Later P i s s) :
    wp store P i (initialStock ctx row part events) Q E writes s := by
  have hnothing : ∀ message t, Later P i s t → Q (0, message) writes t := fun message t ht => by
    simpa using hQ 0 message [] t ht .nothing
  have hnone : ∀ e t, Later P i s t → E e writes t := fun e t ht => by
    simpa using hE e [] t ht
  unfold initialStock
  split
  next h =>
    obtain ⟨quantity, hquantity⟩ : ∃ quantity, row.quantity = some quantity := by
      cases hrow : row.quantity with
      | none => simp [hrow] at h
      | some quantity => exact ⟨quantity, rfl⟩
    rw [wp_bind, wp_nested, initialAddition, wp_bind]
    -- What the inner savepoint undoes is what was written since.
    have hundone : ∀ (e : ScanError) more t, Later P i s t →
        wp store P i (e.stockMessage.elim (Prog.fail e) fun message => pure (0, some message)) Q E
          ((writes ++ more).take writes.length) t := by
      intro e more t ht
      rw [List.take_left]
      cases e.stockMessage with
      | none => exact hnone e t ht
      | some message => exact hnothing _ t ht
    refine wp_mayRaise ?_ fun e => by simpa using hundone e [] s hs
    refine wp_addStockRows (fun lot e t ht hworkspace hpart hdelta hbag => ?_) hundone
    refine hQ _ _ _ t ht (.added ?_ h hworkspace hpart ?_ hbag)
    · rw [hquantity]
      rfl
    · simpa [stockPayload] using hdelta
  next => exact hnothing none s hs

theorem wp_importOneScanRow {Q : CreatedRow → List ScanWrite → ScanState → Prop}
    (hQ : ∀ c left t, Later P i s t → RowLeft ctx.workspaceId row (.created c) left →
      Q c (writes ++ left) t)
    (hE : ∀ e more t, Later P i s t → E e (writes ++ more) t) (hs : Later P i s s) :
    wp store P i (importOneScanRow ctx providerName row mpn lookup r events) Q E writes s := by
  unfold importOneScanRow
  simp only [wp_bind, wp_pure]
  refine wp_createFromProviderLookup (fun part columns described suggestion t ht hws => ?_) hE hs
  refine wp_initialStock (fun quantity message stock u hu hstock => ?_) (fun e more u hu => ?_)
    (Later.refl ht.2)
  · rw [List.append_assoc]
    exact hQ _ _ u (ht.trans hu) (.created rfl hws hstock)
  · rw [List.append_assoc]
    exact hE e _ u (ht.trans hu)

def Unseen (P : Protocol ι ScanState ScanWrite Response) (i : ι) (ctx : Ctx) (row : ScanImportRow)
    (writes : List ScanWrite) (s u : ScanState) : Prop :=
  ∀ signature ∈ row.bagSignature, ∃ t, Later P i s t ∧ Later P i t u ∧
    (store.applyAll writes t).priorImport ctx.workspaceId signature = none

theorem Unseen.later (h : Unseen P i ctx row writes s t)
    (hu : Later P i t u) : Unseen P i ctx row writes s u := fun signature hsignature =>
  let ⟨v, hsv, hvt, hnone⟩ := h signature hsignature
  ⟨v, hsv, hvt.trans hu, hnone⟩

def RowEnds (P : Protocol ι ScanState ScanWrite Response) (i : ι) (ctx : Ctx) (row : ScanImportRow)
    (writes : List ScanWrite) (s : ScanState) (o : RowOutcome) (left : List ScanWrite)
    (u : ScanState) : Prop :=
  Later P i s u ∧ RowLeft ctx.workspaceId row o left ∧
    (left ≠ [] → Unseen P i ctx row writes s u)

theorem rowEnds_nothing (ht : Later P i s t)
    (ho : o.status ≠ .created) : RowEnds P i ctx row writes s o [] t :=
  ⟨ht, .nothing ho, fun h => absurd rfl h⟩

section Outcomes

variable {Q : RowOutcome → List ScanWrite → ScanState → Prop} {t : ScanState}
  (hQ : ∀ o left u, RowEnds P i ctx row writes s o left u → Q o (writes ++ left) u)

include hQ

theorem rowEnds_says (ht : Later P i s t) (ho : o.status ≠ .created) :
    Q o writes t := by
  simpa using hQ o [] t (rowEnds_nothing ht ho)

theorem wp_failedRow {e : ScanError} (ht : Later P i s t) :
    wp store P i (failedRow ctx mpn e) Q E writes t := by
  unfold failedRow
  split
  next =>
    simp only [wp_bind, wp_ask, wp_pure]
    intro u hu
    refine rowEnds_says hQ (ht.trans hu) ?_
    cases (store.applyAll writes u).activePartByMpn ctx.workspaceId mpn <;> simp [RowOutcome.status]
  next => exact rowEnds_says hQ ht (by simp [RowOutcome.status])

theorem wp_createdRow (ht : Later P i s t) (hunseen : Unseen P i ctx row writes s t) :
    wp store P i (createdRow ctx providerName row mpn lookup r events) Q E writes t := by
  unfold createdRow
  rw [wp_bind, wp_nested]
  refine wp_importOneScanRow (fun c left u hu hleft => ?_) (fun e more u hu => ?_) (Later.refl ht.2)
  · exact hQ _ _ u ⟨ht.trans hu, hleft, fun _ => hunseen.later hu⟩
  · rw [List.take_left]
    exact wp_failedRow hQ (ht.trans hu)

theorem wp_lookedUpRow (ht : Later P i s t) (hunseen : Unseen P i ctx row writes s t) :
    wp store P i (lookedUpRow ctx providerName row mpn events) Q E writes t := by
  unfold lookedUpRow
  split
  next => exact rowEnds_says hQ ht (by simp [RowOutcome.status])
  next => exact rowEnds_says hQ ht (by simp [RowOutcome.status])
  next =>
    split
    next => exact rowEnds_says hQ ht (by simp [RowOutcome.status])
    next => exact wp_createdRow hQ ht hunseen

theorem wp_duplicateCheckedRow (ht : Later P i s t) (hunseen : Unseen P i ctx row writes s t) :
    wp store P i (duplicateCheckedRow ctx providerName row mpn events) Q E writes t := by
  unfold duplicateCheckedRow
  simp only [wp_bind, wp_ask]
  intro u hu
  split
  next => exact rowEnds_says hQ (ht.trans hu) (by simp [RowOutcome.status])
  next => exact wp_lookedUpRow hQ (ht.trans hu) (hunseen.later hu)

theorem wp_rescanCheckedRow (ht : Later P i s t) :
    wp store P i (rescanCheckedRow ctx providerName row mpn events) Q E writes t := by
  unfold rescanCheckedRow
  split
  next hempty =>
    refine wp_duplicateCheckedRow hQ ht fun signature hsignature => ?_
    -- A signature that keeps to the pattern is not empty.
    have hlength := (row.bagSignaturePattern signature hsignature).1
    have hne : signature ≠ "" := by
      rintro rfl
      simp at hlength
    rw [Option.mem_def.mp hsignature, nonEmpty, Option.filter_some, if_pos (by simpa using hne)]
      at hempty
    cases hempty
  next signature hsome =>
    simp only [wp_bind, wp_ask]
    intro u hu
    split
    next => exact rowEnds_says hQ (ht.trans hu) (by simp [RowOutcome.status])
    next hnone =>
      refine wp_duplicateCheckedRow hQ (ht.trans hu) fun other hother => ⟨u, ht.trans hu, ?_, ?_⟩
      · exact Later.refl hu.2
      · rw [nonEmpty, Option.mem_def.mp hother, Option.filter_some] at hsome
        split at hsome
        next => exact Option.some.inj hsome ▸ hnone
        next => cases hsome

theorem wp_locatedRow :
    wp store P i (locatedRow d ctx providerName row mpn events) Q E writes s := by
  unfold locatedRow
  simp only [wp_bind, wp_ask]
  intro t ht
  split
  next => exact rowEnds_says hQ ht (by simp [RowOutcome.status])
  next =>
    split
    next => exact rowEnds_says hQ ht (by simp [RowOutcome.status])
    next => exact wp_rescanCheckedRow hQ ht

end Outcomes

theorem wp_scanRow {Q : RowResult → List ScanWrite → ScanState → Prop} (hs : Later P i s s)
    (hQ : ∀ result left u, RowEnds P i ctx row writes s result.outcome left u →
      Q result (writes ++ left) u) :
    wp store P i (scanRow d ctx providerName row events) Q E writes s := by
  have hsays : ∀ result : RowResult, result.outcome.status ≠ .created → Q result writes s :=
    fun result ho => by simpa using hQ result [] s (rowEnds_nothing hs ho)
  unfold scanRow
  simp only
  split
  next => exact hsays _ (by simp [RowOutcome.status])
  next =>
    split
    next => exact hsays _ (by simp [RowOutcome.status])
    next =>
      rw [wp_bind]
      exact wp_locatedRow fun o left u hends => hQ ⟨_, o⟩ left u hends

theorem wp_scanRows {events : ℕ → RowEvents}
    {I : List ScanWrite → ScanState → Prop} {Q : List RowResult → List ScanWrite → ScanState → Prop}
    {n : ℕ}
    (hrow : ∀ row ∈ rows, ∀ ctx', ctx'.workspaceId = ctx.workspaceId → ∀ writes s o left u,
      I writes s → RowEnds P i ctx' row writes s o left u → I (writes ++ left) u)
    (hI : I writes s) (hs : Later P i s s)
    (hQ : ∀ results left u, Later P i s u → RowsLeft ctx.workspaceId rows results left →
      I (writes ++ left) u → Q results (writes ++ left) u) :
    wp store P i (scanRows d ctx providerName events n rows) Q E writes s := by
  induction rows generalizing n writes s Q with
  | nil =>
    have hend := hQ [] [] s hs .nil (by simpa using hI)
    rw [List.append_nil] at hend
    exact hend
  | cons row rest ih =>
    simp only [scanRows, wp_bind, wp_pure]
    refine wp_scanRow hs fun result left u hends => ?_
    have hfirst : I (writes ++ left) u :=
      hrow row (List.mem_cons_self ..) _ (by simp) writes s _ left u hI hends
    refine ih (fun row hmem => hrow row (List.mem_cons_of_mem _ hmem)) hfirst
      (Later.refl hends.1.2) fun results more v hv hmore hall => ?_
    rw [List.append_assoc] at hall ⊢
    exact hQ _ _ v (hends.1.trans hv) (.cons hends.2.1 hmore) hall

section Requests

variable (P i)

def Expired (call : ScanCall) (s u : ScanState) (rows : List CacheRow) : Prop :=
  ∃ t, Later P i s t ∧ Later P i t u ∧ ∀ row ∈ rows,
    row.workspaceId = call.ctx.workspaceId ∧ row.createdAt + idempotencyTtl < t.now

def Missed (call : ScanCall) (s u : ScanState) (swept : List CacheRow) : Prop :=
  ∀ key ∈ call.explicitKey, ∃ t, Later P i s t ∧ Later P i t u ∧
    (store.applyAll [.sweep swept] t).cached call.ctx.workspaceId key = none

/-- How an import ends: answered from the cache, or with its rows imported. -/
inductive ImportEnds (call : ScanCall) (s u : ScanState) : Response → List ScanWrite → Prop
  | cached {swept : List CacheRow} {report : Report} (expired : Expired P i call s u swept)
    (asked : call.explicitKey ≠ none) : ImportEnds call s u (.cached report) [.sweep swept]
  | imported {swept : List CacheRow} {report : Report} {left : List ScanWrite}
    {stored : Option CacheRow} (expired : Expired P i call s u swept)
    (missed : Missed P i call s u swept)
    (rows : RowsLeft call.ctx.workspaceId call.payload.rows report.rows left) :
    ImportEnds call s u (.imported report)
      ([.sweep swept] ++ left ++ (stored.map .insertCache).toList)

end Requests

variable {d : Digests ScanImportRow} {call : ScanCall}

theorem ImportEnds.later (h : ImportEnds P i call s t response writes) (hu : Later P i t u) :
    ImportEnds P i call s u response writes := by
  have hexpired : ∀ {swept}, Expired P i call s t swept → Expired P i call s u swept :=
    fun ⟨v, hsv, hvt, hold⟩ => ⟨v, hsv, hvt.trans hu, hold⟩
  cases h with
  | cached expired asked => exact .cached (hexpired expired) asked
  | imported expired missed rows =>
    refine .imported (hexpired expired) (fun key hkey => ?_) rows
    obtain ⟨v, hsv, hvt, hnone⟩ := missed key hkey
    exact ⟨v, hsv, hvt.trans hu, hnone⟩

theorem ImportEnds.swept
    (h : ImportEnds P i call s u response writes) : Expired P i call s u (sweptBy writes) := by
  cases h with
  | cached expired asked => simpa [sweptBy] using expired
  | @imported swept report left stored expired missed rows =>
    have hstored : sweptBy (stored.map ScanWrite.insertCache).toList = [] := by
      cases stored <;> rfl
    rw [sweptBy_append, sweptBy_append, rows.swept, hstored]
    simpa [sweptBy] using expired

theorem wp_sweepExpired
    (hQ : ∀ swept t, Later P i s t → Expired P i call s t swept → Q () [.sweep swept] t) :
    wp store P i (sweepExpired call) Q (fun _ _ _ => True) [] s := by
  simp only [sweepExpired, wp_bind, wp_ask]
  intro t ht u hu
  refine wp_flush (fun v hv => ?_) fun _ _ _ => trivial
  have hlater : Later P i s v := (ht.trans hu).trans hv
  refine hQ _ v hlater ⟨t, ht, hu.trans hv, fun row hrow => ?_⟩
  exact of_decide_eq_true (List.mem_filter.mp hrow).2

/-- What the sweep, each row and the cache row keep of the writes holds when the import ends. -/
theorem wp_bulkImportFromScan {I : List ScanWrite → ScanState → Prop}
    {Q : Response → List ScanWrite → ScanState → Prop}
    (hlater : ∀ writes t u, Later P i t u → I writes t → I writes u)
    (hsweep : ∀ swept t, Later P i s t → I [.sweep swept] t)
    (hrow : ∀ row ∈ call.payload.rows, ∀ ctx, ctx.workspaceId = call.ctx.workspaceId →
      ∀ writes s o left u, I writes s → RowEnds P i ctx row writes s o left u → I (writes ++ left) u)
    (hcache : ∀ writes row t, I writes t → I (writes ++ [.insertCache row]) t)
    (hQ : ∀ response writes u, Later P i s u → ImportEnds P i call s u response writes →
      I writes u → Q response writes u) :
    wp store P i (bulkImportFromScan d call) Q (fun _ _ _ => True) [] s := by
  unfold bulkImportFromScan
  rw [wp_bind]
  refine wp_sweepExpired fun swept t ht hexpired => ?_
  have himport : ∀ u, Later P i t u → Missed P i call s u swept →
      wp store P i (importScannedRows d call) Q (fun _ _ _ => True) [.sweep swept] u := by
    intro u hu hmissed
    simp only [importScannedRows, wp_bind, wp_ofExcept, wp_ask, wp_pure]
    refine ⟨fun provider _ => ?_, fun _ _ => trivial⟩
    refine wp_scanRows hrow (hlater _ _ _ hu (hsweep swept t ht)) (Later.refl hu.2)
      fun results left v hv hleft hkept x hx => wp_tryPut.mpr fun y hy => ?_
    have hend : Later P i u y := (hv.trans hx).trans hy
    have hsy : Later P i s y := (ht.trans hu).trans hend
    have hkept' : I ([.sweep swept] ++ left) y := hlater _ _ _ (hx.trans hy) hkept
    have hends : ∀ stored : Option CacheRow, ImportEnds P i call s y
        (.imported ⟨results, summary results, results.countP (·.needsDisambiguation), provider⟩)
        ([.sweep swept] ++ left ++ (stored.map .insertCache).toList) := by
      intro stored
      obtain ⟨z, hz, hzt, hold⟩ := hexpired
      exact (ImportEnds.imported ⟨z, hz, hzt.trans hu, hold⟩ hmissed hleft).later hend
    refine ⟨fun _ => ?_, fun _ _ => ?_⟩
    · exact hQ _ _ y hsy (hends (some _)) (hcache _ _ y hkept')
    · refine hQ _ _ y hsy ?_ hkept'
      have hplain := hends none
      rwa [Option.map_none, Option.toList_none, List.append_nil] at hplain
  split
  next hkey =>
    refine himport t (Later.refl ht.2) fun key hsome => ?_
    rw [hkey] at hsome
    cases hsome
  next key hkey =>
    simp only [wp_bind, wp_ask]
    intro u hu
    split
    next row hhit =>
      obtain ⟨z, hz, hzt, hold⟩ := hexpired
      exact hQ _ _ u (ht.trans hu) (.cached ⟨z, hz, hzt.trans hu, hold⟩ (by simp [hkey]))
        (hlater _ _ _ hu (hsweep swept t ht))
    next hnone =>
      refine himport u hu fun other hother => ⟨u, ht.trans hu, Later.refl hu.2, ?_⟩
      obtain rfl : key = other := by
        rw [hkey] at hother
        exact Option.some.inj hother
      exact hnone

theorem wp_archivePartRoute {Q : Response → List ScanWrite → ScanState → Prop}
    (hQ : ∀ mpn at_ u, Later P i s u →
      Q .done [.archivePart ctx.workspaceId partId mpn at_] u) :
    wp store P i (archivePartRoute ctx partId) Q (fun _ _ _ => True) [] s := by
  simp only [archivePartRoute, wp_bind, wp_ask, wp_ofExcept, wp_pure]
  intro t ht
  refine ⟨fun mpn _ => wp_flush (fun u hu => ?_) fun _ _ _ => trivial, fun _ _ => trivial⟩
  exact hQ mpn _ u (ht.trans hu)

theorem wp_restorePartRoute {Q : Response → List ScanWrite → ScanState → Prop}
    (hkept : ∀ u, Later P i s u → Q .done [] u)
    (hQ : ∀ mpn u, Later P i s u → Q .done [.restorePart ctx.workspaceId partId mpn] u) :
    wp store P i (restorePartRoute ctx partId) Q (fun _ _ _ => True) [] s := by
  simp only [restorePartRoute, wp_bind, wp_ask, wp_ofExcept]
  intro t ht
  refine ⟨fun found _ => ?_, fun _ _ => trivial⟩
  obtain ⟨archived, mpn⟩ := found
  split
  next =>
    rw [wp_bind]
    exact wp_flush (fun u hu => hQ mpn u (ht.trans hu)) fun _ _ _ => trivial
  next => exact hkept t ht

end StockManager.Scans
