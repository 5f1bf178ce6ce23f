import Mathlib
import StockManager.Effects.Rows
import StockManager.Model.OrderTransactions
import StockManager.Properties.Deadlock

/-! # Order accounting under concurrent requests

What an order entry has received is what the receive rows of the ledger say, and
never more than was ordered. -/

namespace StockManager

open Transactions

variable {entryId orderId : Uuid} {Q : Post Db DbLock Unit} {entries : List OrderEntry}
variable {e new loaded : OrderEntry} {f : OrderEntry → OrderEntry} {v : EntryView} {order : Order}
  {serialTrackingOn : Bool} {receivedAt : Timestamp} {payloads : List OrderEntryIn}

/-- The receive rows that carry the entry's id. -/
def receivedQuantity (rows : List StockEntry) (entryId : Uuid) : Decimal :=
  tally (fun r => r.operationType = .receive ∧ r.orderEntryId = some entryId)
    (·.quantityDelta) rows

def OrdersAccounted (db : Db) : Prop :=
  ∀ e ∈ db.orderEntries, 0 ≤ e.quantityReceived ∧ e.quantityReceived ≤ e.quantityOrdered ∧
    e.quantityReceived = receivedQuantity db.stockEntries e.id

/-- Where the transactions start: the keys of the tables hold, and the accounts. -/
structure OrderBooks (db : Db) : Prop where
  accounted : OrdersAccounted db
  entryIds : (db.orderEntries.map (·.id)).Nodup
  entryRefs : ∀ r ∈ db.stockEntries, ∀ id ∈ r.orderEntryId, ∃ e ∈ db.orderEntries, e.id = id

structure EntryView where
  rows : List OrderEntry
  received : Decimal

def entryView (db : Db) (id : Uuid) : EntryView :=
  ⟨db.orderEntries.filter fun e => e.id = id, receivedQuantity db.stockEntries id⟩

def EntryView.Balanced (v : EntryView) : Prop :=
  match v.rows with
  | [] => v.received = 0
  | [e] => 0 ≤ e.quantityReceived ∧ e.quantityReceived ≤ e.quantityOrdered ∧
      e.quantityReceived = v.received
  | _ => False

theorem balanced_single (hlow : 0 ≤ e.quantityReceived)
    (hhigh : e.quantityReceived ≤ e.quantityOrdered) :
    (EntryView.mk [e] e.quantityReceived).Balanced := ⟨hlow, hhigh, rfl⟩

theorem OrderBooks.balanced {db : Db} (h : OrderBooks db) (id : Uuid) :
    (entryView db id).Balanced := by
  by_cases hmem : ∃ e ∈ db.orderEntries, e.id = id
  · obtain ⟨e, he, rfl⟩ := hmem
    have honly : db.orderEntries.filter (fun x => x.id = e.id) = [e] :=
      Tally.filter_key_eq (·.id) h.entryIds he
    unfold EntryView.Balanced entryView
    rw [honly]
    exact h.accounted e he
  · have hnone : db.orderEntries.filter (fun x => x.id = id) = [] := by
      rw [List.filter_eq_nil_iff]
      intro e he
      simpa using fun hid => hmem ⟨e, he, hid⟩
    unfold EntryView.Balanced entryView
    rw [hnone]
    apply Tally.tally_eq_zero
    intro r hr hreceive
    exact hmem (h.entryRefs r hr id hreceive.2)

theorem accounted_of_balanced {db : Db} (h : ∀ id, (entryView db id).Balanced) :
    OrdersAccounted db := by
  intro e he
  have hview := h e.id
  have hin : e ∈ db.orderEntries.filter fun x => x.id = e.id := by simpa using he
  unfold EntryView.Balanced entryView at hview
  generalize db.orderEntries.filter (fun x => x.id = e.id) = rows at hview hin
  cases rows with
  | nil => cases hin
  | cons x rest =>
    cases rest with
    | nil =>
      obtain rfl := List.mem_singleton.mp hin
      exact hview
    | cons y rest => exact hview.elim

section Writes

variable (db : Db) (id : Uuid)

theorem entryView_appendStock (row : StockEntry)
    (hop : row.operationType = .receive) (hentry : row.orderEntryId = some entryId) :
    entryView { db with stockEntries := db.stockEntries ++ [row] } id =
      if entryId = id then
        ⟨(entryView db id).rows, (entryView db id).received + row.quantityDelta⟩
      else entryView db id := by
  unfold entryView receivedQuantity
  simp only [Tally.tally_append, Tally.tally_singleton, hop, hentry, Option.some.injEq, true_and]
  split
  next => rfl
  next => rw [add_zero]

theorem entryView_appendEntry (row : OrderEntry) :
    entryView { db with orderEntries := db.orderEntries ++ [row] } id =
      if row.id = id then ⟨(entryView db id).rows ++ [row], (entryView db id).received⟩
      else entryView db id := by
  unfold entryView
  by_cases h : row.id = id
  · simp [List.filter_append, h]
  · simp [List.filter_append, h]

theorem entryView_update (hf : ∀ e, (f e).id = e.id) :
    entryView (db.updateOrderEntry entryId f) id =
      if entryId = id then ⟨(entryView db id).rows.map f, (entryView db id).received⟩
      else entryView db id := by
  have hkey : ∀ e, (if e.id = entryId then f e else e).id = e.id := by
    intro e
    split
    next => exact hf e
    next => rfl
  unfold entryView Db.updateOrderEntry
  rw [List.filter_map]
  have hcomp : ((fun e : OrderEntry => decide (e.id = id)) ∘
      fun e => if e.id = entryId then f e else e) = fun e => decide (e.id = id) := by
    funext e
    simp only [Function.comp_apply, hkey]
  rw [hcomp]
  by_cases h : entryId = id
  · subst h
    rw [if_pos rfl]
    congr 1
    apply List.map_congr_left
    intro e he
    rw [if_pos (by simpa using (List.mem_filter.mp he).2)]
  · rw [if_neg h]
    congr 1
    have hkept : ∀ e ∈ db.orderEntries.filter fun e => e.id = id,
        (if e.id = entryId then f e else e) = e := by
      intro e he
      have hid : e.id = id := by simpa using (List.mem_filter.mp he).2
      rw [if_neg (fun heq => h (heq.symm.trans hid))]
    exact (List.map_congr_left hkept).trans (List.map_id' _)

theorem entryView_delete (entryId : Uuid) :
    entryView (db.deleteOrderEntry entryId) id =
      if entryId = id then ⟨[], 0⟩ else entryView db id := by
  unfold entryView Db.deleteOrderEntry receivedQuantity
  rw [List.filter_filter, Tally.tally_map]
  by_cases h : entryId = id
  · subst h
    rw [if_pos rfl]
    congr 1
    · rw [List.filter_eq_nil_iff]
      intro e _
      simp
    · apply Tally.tally_eq_zero
      intro r _ hr
      split at hr
      next => cases hr.2
      next hne => exact hne hr.2
  · rw [if_neg h]
    congr 1
    · apply List.filter_congr
      intro e _
      by_cases hid : e.id = id
      · simp [hid, Ne.symm h]
      · simp [hid]
    · apply Tally.tally_congr
      · intro r _
        by_cases hr : r.orderEntryId = some entryId
        · simp [hr, h]
        · simp [hr]
      · intro r _ _
        split <;> rfl

end Writes

def guardedEntry : DbLock → Db → Option EntryView
  | .row .orderEntries id, db => some (entryView db id)
  | _, _ => none

def orderProtocol (ι : Type) : Protocol ι Db DbLock :=
  Protocol.ofViews (fun _ db => ∀ id, (entryView db id).Balanced) guardedEntry

section Booking

variable {ι : Type} {own : Uuid → Option EntryView} {pending : Db → Db} {held : List DbLock}
  {db t : Db} {id : Uuid}

theorem entryView_later (h : Later (orderProtocol ι) held db t)
    (hheld : .row .orderEntries id ∈ held) : entryView t id = entryView db id :=
  Option.some.inj (h.1 _ hheld)

theorem balanced_later (h : Later (orderProtocol ι) held db t) (id : Uuid) :
    (entryView t id).Balanced :=
  h.2.choose_spec id

/-- The transaction has locked the entries of `own` and left them as `own` says; it
has not written any other. -/
structure Booked (ι : Type) (own : Uuid → Option EntryView) (pending : Db → Db)
    (held : List DbLock) (db : Db) : Prop where
  live : Later (orderProtocol ι) held db db
  locked : ∀ id v, own id = some v → .row .orderEntries id ∈ held
  balanced : ∀ id v, own id = some v → v.Balanced
  stored : ∀ t, Later (orderProtocol ι) held db t → ∀ id,
    entryView (pending t) id = (own id).getD (entryView t id)

theorem booked_start (h : ∀ id, (entryView db id).Balanced) :
    Booked ι (fun _ => none) (fun s => s) [] db := by
  constructor
  case live => exact ⟨(orderProtocol ι).rely_refl _ _, [], h⟩
  case locked =>
    intro id v hv
    cases hv
  case balanced =>
    intro id v hv
    cases hv
  case stored => exact fun t _ id => rfl

theorem Booked.later (h : Booked ι own pending held db)
    (ht : Later (orderProtocol ι) held db t) : Booked ι own pending held t := by
  constructor
  case live => exact Later.refl ht.2.choose_spec
  case locked => exact h.locked
  case balanced => exact h.balanced
  case stored => exact fun u hu => h.stored u (ht.trans hu)

theorem Booked.lock {more : List DbLock} (h : Booked ι own pending held db)
    (hmore : held ⊆ more) : Booked ι own pending more db := by
  constructor
  case live => exact Later.refl h.live.2.choose_spec
  case locked => exact fun id v hv => hmore (h.locked id v hv)
  case balanced => exact h.balanced
  case stored => exact fun u hu => h.stored u (hu.mono hmore)

theorem Booked.other {f : Db → Db} (h : Booked ι own pending held db)
    (hf : ∀ s id, entryView (f s) id = entryView s id) : Booked ι own (f ∘ pending) held db := by
  constructor
  case live => exact h.live
  case locked => exact h.locked
  case balanced => exact h.balanced
  case stored =>
    intro u hu k
    rw [Function.comp_apply, hf, h.stored u hu]

theorem Booked.acquire {k : Uuid} (h : Booked ι own pending held db)
    (hk : .row .orderEntries k ∈ held) :
    ∃ own', own' k = some (entryView (pending db) k) ∧ Booked ι own' pending held db := by
  have hnow := h.stored db h.live k
  cases hown : own k with
  | some v =>
    rw [hown, Option.getD_some] at hnow
    exact ⟨own, hnow ▸ hown, h⟩
  | none =>
    rw [hown, Option.getD_none] at hnow
    refine ⟨Function.update own k (some (entryView (pending db) k)), Function.update_self .., ?_⟩
    constructor
    case live => exact h.live
    case locked =>
      intro id v hv
      by_cases hid : id = k
      · exact hid ▸ hk
      · rw [Function.update_of_ne hid] at hv
        exact h.locked id v hv
    case balanced =>
      intro id v hv
      by_cases hid : id = k
      · subst hid
        rw [Function.update_self] at hv
        obtain rfl := Option.some.inj hv
        exact hnow ▸ balanced_later h.live id
      · rw [Function.update_of_ne hid] at hv
        exact h.balanced id v hv
    case stored =>
      intro u hu id
      have hold := h.stored u hu id
      by_cases hid : id = k
      · subst hid
        rw [hown, Option.getD_none, entryView_later hu hk] at hold
        rw [Function.update_self, Option.getD_some, hold, hnow]
      · rw [Function.update_of_ne hid, hold]

theorem Booked.write {k : Uuid} {f : Db → Db} {g : EntryView → EntryView}
    (h : Booked ι own pending held db) (hv : own k = some v)
    (hf : ∀ s id, entryView (f s) id = if k = id then g (entryView s id) else entryView s id)
    (hbalanced : (g v).Balanced) :
    Booked ι (Function.update own k (some (g v))) (f ∘ pending) held db := by
  constructor
  case live => exact h.live
  case locked =>
    intro id x hx
    by_cases hid : id = k
    · exact hid ▸ h.locked k v hv
    · rw [Function.update_of_ne hid] at hx
      exact h.locked id x hx
  case balanced =>
    intro id x hx
    by_cases hid : id = k
    · subst hid
      rw [Function.update_self] at hx
      obtain rfl := Option.some.inj hx
      exact hbalanced
    · rw [Function.update_of_ne hid] at hx
      exact h.balanced id x hx
  case stored =>
    intro u hu id
    have hold := h.stored u hu id
    rw [Function.comp_apply, hf]
    by_cases hid : id = k
    · subst hid
      rw [hv, Option.getD_some] at hold
      rw [if_pos rfl, Function.update_self, Option.getD_some, hold]
    · rw [if_neg (Ne.symm hid), Function.update_of_ne hid, hold]

theorem Booked.commits {i : ι} {q : Db → Bool} (h : Booked ι own pending held db) :
    Commits (orderProtocol ι) i q pending held db := by
  intro log u hrely hinv _
  have hu : Later (orderProtocol ι) held db u := ⟨hrely, log, hinv⟩
  have hstored := h.stored u hu
  constructor
  · intro id
    rw [hstored]
    cases hown : own id with
    | none => exact hinv id
    | some v => exact h.balanced id v hown
  · intro l hl
    cases l with
    | row table id =>
      cases table with
      | orderEntries =>
        have hown : own id = none := by
          by_contra hsome
          obtain ⟨v, hv⟩ := Option.ne_none_iff_exists'.mp hsome
          exact hl (h.locked id v hv)
        have hsame := hstored id
        rw [hown, Option.getD_none] at hsame
        exact congrArg some hsame
      | _ => rfl
    | _ => rfl

end Booking

section Requests

variable {ι : Type} {own : Uuid → Option EntryView} {pending : Db → Db} {held : List DbLock}
  {db : Db} {ctx : Ctx} {partArchived : Uuid → Bool}

def ownEntries (entries : List OrderEntry) (id : Uuid) : Option EntryView :=
  (entries.find? (·.id = id)).map fun e => ⟨[e], e.quantityReceived⟩

theorem entryView_of_mem (h : (entryView db e.id).Balanced)
    (he : e ∈ db.orderEntries) : entryView db e.id = ⟨[e], e.quantityReceived⟩ := by
  have hin : e ∈ (entryView db e.id).rows := by simpa [entryView] using he
  generalize entryView db e.id = v at h hin
  obtain ⟨rows, received⟩ := v
  cases rows with
  | nil => cases hin
  | cons x rest =>
    cases rest with
    | nil =>
      obtain rfl := List.mem_singleton.mp hin
      rw [h.2.2]
    | cons y rest => exact h.elim

theorem booked_entries (hdb : Later (orderProtocol ι) held db db)
    (hentries : ∀ e ∈ entries, .row .orderEntries e.id ∈ held ∧ e ∈ db.orderEntries) :
    Booked ι (ownEntries entries) (fun s => s) held db := by
  have hview : ∀ e ∈ entries, entryView db e.id = ⟨[e], e.quantityReceived⟩ := fun e he =>
    entryView_of_mem (balanced_later hdb e.id) (hentries e he).2
  have hown : ∀ id v, ownEntries entries id = some v →
      ∃ e ∈ entries, e.id = id ∧ v = ⟨[e], e.quantityReceived⟩ := by
    intro id v hv
    obtain ⟨e, he, rfl⟩ := Option.map_eq_some_iff.mp hv
    exact ⟨e, List.mem_of_find?_eq_some he, by simpa using List.find?_some he, rfl⟩
  constructor
  case live => exact hdb
  case locked =>
    intro id v hv
    obtain ⟨e, he, rfl, _⟩ := hown id v hv
    exact (hentries e he).1
  case balanced =>
    intro id v hv
    obtain ⟨e, he, rfl, rfl⟩ := hown id v hv
    rw [← hview e he]
    exact balanced_later hdb e.id
  case stored =>
    intro u hu id
    cases hsome : ownEntries entries id with
    | none => rfl
    | some v =>
      obtain ⟨e, he, rfl, rfl⟩ := hown id v hsome
      rw [entryView_later hu (hentries e he).1, hview e he, Option.getD_some]

theorem ownEntries_replace {oe new : OrderEntry}
    (hoe : ∃ x ∈ entries, x.id = oe.id) (hid : new.id = oe.id) :
    ownEntries (entries.map fun e => if e.id = oe.id then new else e) =
      Function.update (ownEntries entries) oe.id (some ⟨[new], new.quantityReceived⟩) := by
  funext id
  unfold ownEntries
  have hkey : ∀ r : OrderEntry, r.id = oe.id → new.id = oe.id := fun _ _ => hid
  rw [find_update hkey]
  by_cases h : id = oe.id
  · subst h
    obtain ⟨x, hx, hxid⟩ := hoe
    have hfound : (entries.find? (·.id = oe.id)).isSome := by
      rw [List.find?_isSome]
      exact ⟨x, hx, by simpa using hxid⟩
    obtain ⟨e, he⟩ := Option.isSome_iff_exists.mp hfound
    have heid : e.id = oe.id := by simpa using List.find?_some he
    rw [Function.update_self, he, Option.map_some, Option.map_some, if_pos heid]
  · rw [Function.update_of_ne h]
    cases hfound : entries.find? (·.id = id) with
    | none => rfl
    | some e =>
      have heid : e.id = id := by simpa using List.find?_some hfound
      rw [Option.map_some, if_neg (fun heq => h (heid.symm.trans heq))]

theorem entryView_received (row : StockEntry)
    (hop : row.operationType = .receive) (hentry : row.orderEntryId = some entryId)
    (hf : ∀ e, (f e).id = e.id) (s : Db) (id : Uuid) :
    entryView (({ s with stockEntries := s.stockEntries ++ [row] } : Db).updateOrderEntry
        entryId f) id =
      if entryId = id then
        ⟨(entryView s id).rows.map f, (entryView s id).received + row.quantityDelta⟩
      else entryView s id := by
  rw [entryView_update _ _ hf, entryView_appendStock _ _ _ hop hentry]
  split
  next => rfl
  next => rfl

theorem wp_receiveLineTx {line : ReceiveLineIn} {Q : Post Db DbLock (List OrderEntry)}
    (h : Booked ι (ownEntries entries) pending held db)
    (hQ : ∀ entries' pending' held' t, Booked ι (ownEntries entries') pending' held' t →
      Q entries' pending' held' t) :
    wp (orderProtocol ι) (receiveLineTx ctx order serialTrackingOn receivedAt entries line) Q
      pending held db := by
  simp only [receiveLineTx, wp_bind, wp_orRaise, wp_check, wp_ask, wp_put, wp_pure]
  intro oe hfound _ _ hcovered t ht part _ _ _
  have hoe : oe ∈ entries := List.mem_of_find?_eq_some hfound
  have hid : oe.id = line.orderEntryId := by simpa using List.find?_some hfound
  have hown : ownEntries entries oe.id = some ⟨[oe], oe.quantityReceived⟩ := by
    rw [ownEntries, hid, hfound]
    rfl
  have hbalanced := h.balanced _ _ hown
  apply wp_lockedDestination (Later.refl ht.2.choose_spec)
  intro storage more u hmore hu
  have hbooked := ((h.later ht).later hu).lock hmore
  apply wp_insert
  intro v _ hv _
  apply wp_insert
  intro w _ hw _
  apply hQ
  have hlot : Booked ι (ownEntries entries)
      ((fun s => { s with lots := s.lots ++ [receivedLot ctx order oe part line] }) ∘ pending)
      (.row .lots (receivedLot ctx order oe part line).id :: more) v :=
    ((hbooked.later hv).lock (List.subset_cons_self ..)).other fun _ _ => rfl
  have hpos : (0 : Decimal) < line.quantity := by exact_mod_cast line.quantityPos
  have hcounted : (EntryView.mk [countReceived ctx oe line.quantity]
      (oe.quantityReceived + line.quantity)).Balanced := by
    apply balanced_single (e := countReceived ctx oe line.quantity)
    · exact add_nonneg hbalanced.1 hpos.le
    · have hle : (line.quantity : Decimal) ≤ oe.quantityOrdered - oe.quantityReceived := hcovered
      exact (le_sub_iff_add_le'.mp hle)
  have hsame : (countReceived ctx oe line.quantity).id = oe.id := rfl
  rw [ownEntries_replace ⟨oe, hoe, rfl⟩ hsame]
  exact ((hlot.later hw).lock (List.subset_cons_self ..)).write hown
    (g := fun v => ⟨v.rows.map (writtenCount (countReceived ctx oe line.quantity)),
      v.received + line.quantity⟩)
    (entryView_received (receivedStock ctx order oe part (receivedLot ctx order oe part line).id
      storage receivedAt line) rfl rfl fun _ => rfl) hcounted

theorem wp_receiveLinesTx {lines : List ReceiveLineIn} {Q : Post Db DbLock (List OrderEntry)}
    (h : Booked ι (ownEntries entries) pending held db)
    (hQ : ∀ own entries' pending' held' t, Booked ι own pending' held' t →
      Q entries' pending' held' t) :
    wp (orderProtocol ι) (receiveLinesTx ctx order serialTrackingOn receivedAt entries lines) Q
      pending held db := by
  induction lines generalizing ctx entries pending held db with
  | nil => exact hQ _ _ _ _ _ h
  | cons line rest ih =>
    rw [receiveLinesTx, wp_bind]
    exact wp_receiveLineTx h fun _ _ _ _ hline => ih hline

theorem wp_updateOrderTx {loaded new : Order} (h : Booked ι own pending held db)
    (hQ : ∀ pending' held' t, Booked ι own pending' held' t → Q () pending' held' t) :
    wp (orderProtocol ι) (updateOrderTx loaded new) Q pending held db := by
  unfold updateOrderTx
  split
  next => exact hQ _ _ _ h
  next =>
    simp only [wp_bind, wp_take, wp_put]
    intro t ht
    exact hQ _ _ _ (((h.later ht).lock (List.subset_cons_self ..)).other fun _ _ => rfl)

theorem wp_receiveOrderTx {i : ι} {payload : ReceiveIn} :
    wp (orderProtocol ι) (receiveOrderTx ctx orderId payload) (Commits (orderProtocol ι) i)
      (fun s => s) [] db := by
  simp only [receiveOrderTx, receiveTx, DbTx.lockParts, wp_bind, wp_ask, wp_mapError, wp_check,
    wp_read, wp_pure]
  intro t ht order _ _ u hu
  apply wp_takeAll (Later.refl hu.2.choose_spec)
  intro more v _ _ hv
  apply wp_entriesForUpdate
  intro entries more' w _ hw hentries x hx
  have hlocked : ∀ e ∈ entries, .row .orderEntries e.id ∈ more' ∧ e ∈ w.orderEntries :=
    fun e he => ⟨(hentries e he).1, (List.mem_filter.mp (hentries e he).2).1⟩
  have hbooked := booked_entries (Later.refl hw.2.choose_spec) hlocked
  apply wp_receiveLinesTx (hbooked.later hx)
  intro own entries' pending' held' y hy
  exact wp_updateOrderTx hy fun _ _ _ hdone => hdone.commits

theorem wp_insertEntryTx {entry : OrderEntry}
    (h : Booked ι own pending held db) (hreceived : entry.quantityReceived = 0)
    (hordered : 0 ≤ entry.quantityOrdered)
    (hQ : ∀ own' pending' held' t, Booked ι own' pending' held' t → Q () pending' held' t) :
    wp (orderProtocol ι) (insertEntryTx entry) Q pending held db := by
  apply wp_insert
  intro t inserted ht hins
  obtain ⟨own', hown, hbooked⟩ := ((h.later ht).lock (List.subset_cons_self ..)).acquire
    (k := entry.id) (List.mem_cons_self ..)
  simp only [Db.insertOrderEntry, Outcome.bind_ok, Outcome.check_ok] at hins
  obtain ⟨_, hfresh, _⟩ := hins
  have hrows : (entryView (pending t) entry.id).rows = [] := by
    apply List.filter_eq_nil_iff.mpr
    intro r hr
    simpa using hfresh r hr
  have hzero : (entryView (pending t) entry.id).received = 0 := by
    have hbalanced := hbooked.balanced _ _ hown
    unfold EntryView.Balanced at hbalanced
    rw [hrows] at hbalanced
    exact hbalanced
  refine hQ _ _ _ _ (hbooked.write hown
    (g := fun v => ⟨v.rows ++ [entry], v.received⟩) (fun s id => entryView_appendEntry s id entry) ?_)
  simp only [hrows, hzero, List.nil_append, EntryView.Balanced]
  exact ⟨hreceived.ge, hreceived ▸ hordered, hreceived⟩

theorem wp_insertEntriesTx {idx : ℕ} (h : Booked ι own pending held db)
    (hQ : ∀ own' pending' held' t, Booked ι own' pending' held' t → Q () pending' held' t) :
    wp (orderProtocol ι) (insertEntriesTx ctx orderId idx payloads) Q pending held db := by
  induction payloads generalizing ctx idx own pending held db with
  | nil => exact hQ _ _ _ _ h
  | cons payload rest ih =>
    rw [insertEntriesTx, wp_bind]
    have hordered : (0 : Decimal) ≤ payload.quantityOrdered := by
      have hpos := payload.quantityPos
      exact_mod_cast (by omega : (0 : ℤ) ≤ payload.quantityOrdered)
    exact wp_insertEntryTx h rfl hordered fun _ _ _ _ hnext => ih hnext

theorem wp_assertPartsLive (h : Booked ι own pending held db)
    (hQ : ∀ t, Booked ι own pending held t → Q () pending held t) :
    wp (orderProtocol ι) (assertPartsLive partArchived ctx payloads) Q pending held db := by
  induction payloads generalizing db with
  | nil => exact hQ _ h
  | cons payload rest ih =>
    simp only [assertPartsLive, wp_bind, wp_ask]
    intro t ht _ _
    exact ih (h.later ht)

theorem wp_createOrderTx {i : ι} {payload : OrderCreateIn}
    (h : Booked ι (fun _ => none) (fun s => s) [] db) :
    wp (orderProtocol ι) (createOrderTx partArchived ctx payload) (Commits (orderProtocol ι) i)
      (fun s => s) [] db := by
  simp only [createOrderTx, wp_bind, wp_pure]
  apply wp_insert
  intro t _ ht _
  apply wp_assertPartsLive
  · exact ((h.later ht).lock (List.subset_cons_self ..)).other fun _ _ => rfl
  · intro u hu
    exact wp_insertEntriesTx hu fun _ _ _ _ hdone => hdone.commits

theorem wp_addEntryTx {i : ι} {payload : OrderEntryIn}
    (h : Booked ι (fun _ => none) (fun s => s) [] db) :
    wp (orderProtocol ι) (addEntryTx partArchived ctx orderId payload)
      (Commits (orderProtocol ι) i) (fun s => s) [] db := by
  simp only [addEntryTx, wp_bind, wp_ask, wp_read, wp_pure]
  intro t ht order _ u hu _ _ v hv
  have hordered : (0 : Decimal) ≤ payload.quantityOrdered := by
    have hpos := payload.quantityPos
    exact_mod_cast (by omega : (0 : ℤ) ≤ payload.quantityOrdered)
  apply wp_insertEntryTx (((h.later ht).later hu).later hv) rfl hordered
  intro own' pending' held' w hw
  exact wp_updateOrderTx hw fun _ _ _ hdone => hdone.commits

theorem balanced_writtenEntry (h : v.Balanced)
    (hcovers : new.quantityOrdered ≠ loaded.quantityOrdered →
      ∀ stored ∈ v.rows, stored.quantityReceived ≤ new.quantityOrdered) :
    (EntryView.mk (v.rows.map (writtenEntry loaded new)) v.received).Balanced := by
  obtain ⟨rows, received⟩ := v
  cases rows with
  | nil => exact h
  | cons e rest =>
    cases rest with
    | cons x rest => exact h.elim
    | nil =>
      obtain ⟨hlow, hhigh, heq⟩ := h
      refine ⟨hlow, ?_, heq⟩
      change e.quantityReceived ≤
        written loaded.quantityOrdered new.quantityOrdered e.quantityOrdered
      unfold written
      split
      next => exact hhigh
      next hchanged => exact hcovers hchanged e (List.mem_singleton_self e)

theorem wp_updateEntryTx (h : Booked ι own (fun s => s) held db)
    (hQ : ∀ own' pending' held' t, Booked ι own' pending' held' t → Q () pending' held' t) :
    wp (orderProtocol ι) (updateEntryTx loaded new) Q (fun s => s) held db := by
  unfold updateEntryTx
  split
  next => exact hQ _ _ _ _ h
  next =>
    simp only [wp_bind, wp_take, wp_assume, wp_read, wp_check, wp_put]
    intro t ht u hu hcovers v hv _
    have hlock : .row .orderEntries loaded.id ∈ DbLock.row .orderEntries loaded.id :: held :=
      List.mem_cons_self ..
    obtain ⟨own', hown, hbooked⟩ :=
      ((((h.later ht).lock (List.subset_cons_self ..)).later hu).later hv).acquire hlock
    have hstored : entryView v loaded.id = entryView u loaded.id := entryView_later hv hlock
    refine hQ _ _ _ _ (hbooked.write hown
      (g := fun v => ⟨v.rows.map (writtenEntry loaded new), v.received⟩)
      (fun s id => entryView_update s id fun _ => rfl) ?_)
    apply balanced_writtenEntry (hbooked.balanced _ _ hown)
    intro hchanged stored hmem
    rw [hstored] at hmem
    obtain ⟨hin, hid⟩ := List.mem_filter.mp hmem
    exact hcovers hchanged stored hin (of_decide_eq_true hid)

theorem wp_patchEntryTx {i : ι} {payload : OrderEntryPatch}
    (h : Booked ι (fun _ => none) (fun s => s) [] db) :
    wp (orderProtocol ι) (patchEntryTx partArchived ctx orderId entryId payload)
      (Commits (orderProtocol ι) i) (fun s => s) [] db := by
  simp only [patchEntryTx, wp_bind, wp_ask, wp_check, wp_ofExcept, wp_pure]
  intro t ht order _ u hu e _ v hv _ _ _ row _
  exact wp_updateEntryTx (((h.later ht).later hu).later hv) fun _ _ _ _ hdone => hdone.commits

theorem wp_delEntryTx {i : ι} (h : Booked ι (fun _ => none) (fun s => s) [] db) :
    wp (orderProtocol ι) (delEntryTx ctx orderId entryId)
      (Commits (orderProtocol ι) i) (fun s => s) [] db := by
  simp only [delEntryTx, wp_bind, wp_ask, wp_check, wp_take, wp_put, wp_pure]
  intro t ht order _ u hu e _ _ v hv
  obtain ⟨own', hown, hbooked⟩ := ((((h.later ht).later hu).later hv).lock
    (List.subset_cons_self ..)).acquire (k := e.id) (List.mem_cons_self ..)
  exact (hbooked.write hown (g := fun _ => ⟨[], 0⟩)
    (fun s id => entryView_delete s id e.id) rfl).commits

theorem wp_orderCall {i : ι} (call : OrderCall) (h : Booked ι (fun _ => none) (fun s => s) [] db) :
    wp (orderProtocol ι) call.tx (Commits (orderProtocol ι) i) (fun s => s) [] db := by
  obtain ⟨ctx, partArchived, request⟩ := call
  cases request with
  | createOrder payload => exact wp_createOrderTx h
  | addEntry orderId payload => exact wp_addEntryTx h
  | patchEntry orderId entryId payload => exact wp_patchEntryTx h
  | delEntry orderId entryId => exact wp_delEntryTx h
  | receive orderId payload => exact wp_receiveOrderTx

end Requests

/-- Whatever the order of the steps: while every `UPDATE` of an entry finds no more
received than the quantity it writes, the accounts hold in every committed state. -/
theorem ordersAccounted_of_run {ι : Type} [DecidableEq ι] [Fintype ι] {db : Db}
    (hdb : OrderBooks db) (calls : ι → OrderCall) {acts : List (Act ι)}
    (hmet : Machine.Meets World.step World.Reliable (start db fun i => (calls i).tx) acts)
    {w : World ι Db DbLock Err}
    (hrun : Machine.run World.step (start db fun i => (calls i).tx) acts = some w) :
    OrdersAccounted w.committed := by
  have hbooked : Booked ι (fun _ => none) (fun s => s) [] db := booked_start hdb.balanced
  have hinv : (orderProtocol ι).inv [] db := hdb.balanced
  exact accounted_of_balanced
    (inv_of_run hinv (fun i => wp_orderCall (calls i) hbooked) hmet hrun)

/-- Some of the ten bolts arrive while the order line is cut down to `ordered`. -/
def samplePatchReceive (ordered quantity : ℤ) (hordered : 1 ≤ ordered) (hquantity : 0 < quantity) :
    Fin 2 → OrderCall
  | 0 => ⟨sampleCtx 1000, fun _ => false,
      .receive 50 ⟨none, [⟨60, quantity, some 20, none, none, hquantity⟩], List.cons_ne_nil _ _⟩⟩
  | 1 => ⟨sampleCtx 2000, fun _ => false,
      .patchEntry 50 60 ⟨.unset, .set ⟨ordered, hordered⟩, .unset, .unset⟩⟩

/-- The patch loads the entry, the receive runs and commits, the patch goes on. -/
def sampleReceiveBetween : List (Act (Fin 2)) :=
  List.replicate 3 (.advance 1) ++ List.replicate 21 (.advance 0) ++ List.replicate 5 (.advance 1)

theorem sampleOrdersDb_books : OrderBooks sampleOrdersDb := by
  constructor
  case accounted =>
    unfold OrdersAccounted
    decide
  case entryIds => decide
  case entryRefs =>
    intro r hr
    cases hr

/-- Three of ten have arrived when the line is cut down to five. -/
theorem ordersAccounted_of_run_sample :
    ∃ w, Machine.run World.step
        (start sampleOrdersDb fun i => (samplePatchReceive 5 3 (by decide) (by decide) i).tx)
        sampleReceiveBetween = some w ∧ w.log = [1, 0] ∧ OrdersAccounted w.committed := by
  have hran : (Machine.run World.step
      (start sampleOrdersDb fun i => (samplePatchReceive 5 3 (by decide) (by decide) i).tx)
      sampleReceiveBetween).map (·.log) = some [1, 0] := by
    decide +kernel
  obtain ⟨w, hrun, hlog⟩ := Option.map_eq_some_iff.mp hran
  exact ⟨w, hrun, hlog, ordersAccounted_of_run sampleOrdersDb_books
    (samplePatchReceive 5 3 (by decide) (by decide)) (by decide +kernel) hrun⟩

/-- Eight of ten have arrived when the line is cut down to five: the check of
`patch_entry` saw none. -/
theorem patchEntry_below_received :
    ¬ ∀ (db : Db) (calls : Fin 2 → OrderCall) (acts : List (Act (Fin 2)))
      (w : World (Fin 2) Db DbLock Err), OrderBooks db →
      Machine.run World.step (start db fun i => (calls i).tx) acts = some w →
        OrdersAccounted w.committed := by
  intro h
  have hran : (Machine.run World.step
      (start sampleOrdersDb fun i => (samplePatchReceive 5 8 (by decide) (by decide) i).tx)
      sampleReceiveBetween).map (fun w => w.committed.orderEntries.all fun e =>
        e.quantityReceived ≤ e.quantityOrdered) = some false := by
    decide +kernel
  obtain ⟨w, hrun, hover⟩ := Option.map_eq_some_iff.mp hran
  have haccounted := h sampleOrdersDb _ sampleReceiveBetween w sampleOrdersDb_books hrun
  have hcovered : w.committed.orderEntries.all
      (fun e => e.quantityReceived ≤ e.quantityOrdered) = true := by
    rw [List.all_eq_true]
    intro e he
    simpa using (haccounted e he).2.1
  rw [hover] at hcovered
  cases hcovered

end StockManager
