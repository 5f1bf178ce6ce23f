import StockManager.Effects.Balance

/-! # Reserve rows and what is left of them

A reserve row is never changed; the release rows that point at it count against
it. `remainder` is what is left. The lemmas below say what each service that
writes reserved rows does to the remainders. -/

namespace StockManager

variable {r : StockEntry} {rows : List StockEntry} {outstanding : List (StockEntry × Decimal)}
  {amounts : List (Uuid × Decimal)}

structure OnHandOnly (db db' : Db) : Prop where
  builds : SameBuilds db db'
  rows : ∃ rows, db'.stockEntries = db.stockEntries ++ rows ∧ ∀ e ∈ rows, e.status = .onHand
  nodup : (db.stockEntries.map (·.id)).Nodup → (db'.stockEntries.map (·.id)).Nodup

theorem OnHandOnly.refl (db : Db) : OnHandOnly db db :=
  ⟨⟨rfl, rfl, rfl⟩, ⟨[], by simp, by simp⟩, fun h => h⟩

theorem OnHandOnly.trans {a b c : Db} (h : OnHandOnly a b) (k : OnHandOnly b c) :
    OnHandOnly a c := by
  obtain ⟨rows, hrows, hstatus⟩ := h.rows
  obtain ⟨more, hmore, hstatus'⟩ := k.rows
  refine ⟨h.builds.trans k.builds, ⟨rows ++ more, ?_, ?_⟩, fun hn => k.nodup (h.nodup hn)⟩
  · rw [hmore, hrows, List.append_assoc]
  · intro e he
    rcases List.mem_append.mp he with he | he
    · exact hstatus e he
    · exact hstatus' e he

theorem nodup_append_fresh {e : StockEntry}
    (h : (rows.map (·.id)).Nodup) (hfresh : ∀ r ∈ rows, r.id ≠ e.id) :
    ((rows ++ [e]).map (·.id)).Nodup := by
  rw [List.map_append, List.nodup_append]
  refine ⟨h, by simp, ?_⟩
  intro i hi j hj hij
  obtain ⟨r, hr, rfl⟩ := List.mem_map.mp hi
  obtain rfl : j = e.id := by simpa using hj
  exact hfresh r hr hij

theorem stockStep_onHandOnly {Recount : Db → Bucket → Decimal → Prop} {db db' : Db}
    (hstep : StockStep Recount db db') : OnHandOnly db db' := by
  cases hstep with
  | produced hrow hpos =>
    exact ⟨⟨rfl, rfl, rfl⟩, ⟨_, rfl, by simp [hrow.status]⟩,
      fun hn => nodup_append_fresh hn hrow.fresh⟩
  | drawn hrow hpos =>
    exact ⟨⟨rfl, rfl, rfl⟩, ⟨_, rfl, by simp [hrow.status]⟩,
      fun hn => nodup_append_fresh hn hrow.fresh⟩
  | moved hpair hpos =>
    rename_i outEntry inEntry
    refine ⟨⟨rfl, rfl, rfl⟩, ⟨_, rfl, by simp [hpair.outStatus, hpair.inStatus]⟩, ?_⟩
    intro hn
    have hsplit : db.stockEntries ++ [outEntry, inEntry] =
        (db.stockEntries ++ [outEntry]) ++ [inEntry] := by simp
    have hout := nodup_append_fresh hn hpair.outFresh
    simp only [hsplit]
    refine nodup_append_fresh hout ?_
    intro r hr
    rcases List.mem_append.mp hr with hr | hr
    · exact hpair.inFresh r hr
    · obtain rfl := List.mem_singleton.mp hr
      exact hpair.idsDiffer
  | recounted hrow _ _ _ =>
    exact ⟨⟨rfl, rfl, rfl⟩, ⟨_, rfl, by simp [hrow.status]⟩,
      fun hn => nodup_append_fresh hn hrow.fresh⟩
  | patched => exact ⟨⟨rfl, rfl, rfl⟩, ⟨[], by simp [Db.updateStorageLocation], by simp⟩, id⟩
  | archived => exact ⟨⟨rfl, rfl, rfl⟩, ⟨[], by simp [Db.updateStorageLocation], by simp⟩, id⟩
  | restored => exact ⟨⟨rfl, rfl, rfl⟩, ⟨[], by simp [Db.updateStorageLocation], by simp⟩, id⟩
  | created => exact ⟨⟨rfl, rfl, rfl⟩, ⟨[], by simp, by simp⟩, id⟩
  | elsewhere hsame hbuilds =>
    exact ⟨hbuilds, ⟨[], by simp [hsame.stockEntries], by simp⟩, by rw [hsame.stockEntries]; exact id⟩

theorem stockChain_onHandOnly {Recount : Db → Bucket → Decimal → Prop} {db db' : Db}
    (hchain : StockChain Recount db db') : OnHandOnly db db' := by
  induction hchain with
  | refl => exact .refl db
  | tail _ hlast ih => exact ih.trans (stockStep_onHandOnly hlast)

def StockEntry.isReserve (e : StockEntry) : Prop :=
  e.status = .reserved ∧ e.operationType = .reserve

def StockEntry.isRelease (e : StockEntry) : Prop :=
  e.status = .reserved ∧ e.operationType = .release

instance (e : StockEntry) : Decidable e.isReserve := inferInstanceAs (Decidable (_ ∧ _))
instance (e : StockEntry) : Decidable e.isRelease := inferInstanceAs (Decidable (_ ∧ _))

/-- What the release rows that point at the row `id` give back. -/
def released (rows : List StockEntry) (id : Uuid) : Decimal :=
  tally (fun e => e.isRelease ∧ e.relatedEntryId = some id) (fun e => -e.quantityDelta) rows

def remainder (rows : List StockEntry) (r : StockEntry) : Decimal :=
  r.quantityDelta - released rows r.id

/-- Every reserved row reserves or releases, and a release points at a reserve row
of its own build and part. -/
structure ReservationRows (rows : List StockEntry) : Prop where
  nodup : (rows.map (·.id)).Nodup
  kinds : ∀ e ∈ rows, e.status = .reserved → e.isReserve ∨ e.isRelease
  backed : ∀ e ∈ rows, e.isRelease → ∃ r ∈ rows, r.isReserve ∧ e.relatedEntryId = some r.id ∧
    e.workspaceId = r.workspaceId ∧ e.buildId = r.buildId ∧ e.partId = r.partId

def WithinReserved (rows : List StockEntry) : Prop :=
  ∀ r ∈ rows, r.isReserve → 0 ≤ remainder rows r

theorem eq_of_id (h : (rows.map (·.id)).Nodup) {r s : StockEntry}
    (hr : r ∈ rows) (hs : s ∈ rows) (hid : r.id = s.id) : r = s :=
  List.inj_on_of_nodup_map h hr hs hid

theorem ReservationRows.released_zero (h : ReservationRows rows)
    {id : Uuid} (hfresh : ∀ r ∈ rows, r.id ≠ id) : released rows id = 0 := by
  apply Tally.tally_eq_zero
  rintro e he ⟨hrel, hid⟩
  obtain ⟨r, hr, _, hrid, _⟩ := h.backed e he hrel
  have heq : some id = some r.id := hid.symm.trans hrid
  exact hfresh r hr (Option.some.inj heq).symm

theorem released_append (rows more : List StockEntry) (id : Uuid) :
    released (rows ++ more) id = released rows id + released more id := Tally.tally_append ..

theorem released_none (h : ∀ e ∈ rows, ¬ e.isRelease) (id : Uuid) :
    released rows id = 0 := by
  apply Tally.tally_eq_zero
  rintro e he ⟨hrel, _⟩
  exact h e he hrel

section NoRelease

variable {rows more : List StockEntry}

theorem remainder_append (hmore : ∀ e ∈ more, ¬ e.isRelease) (r : StockEntry) :
    remainder (rows ++ more) r = remainder rows r := by
  rw [remainder, remainder, released_append, released_none hmore, add_zero]

theorem ReservationRows.append (h : ReservationRows rows)
    (hnodup : ((rows ++ more).map (·.id)).Nodup)
    (hmore : ∀ e ∈ more, e.isReserve ∨ e.status = .onHand) : ReservationRows (rows ++ more) where
  nodup := hnodup
  kinds := by
    intro e he hstatus
    rcases List.mem_append.mp he with he | he
    · exact h.kinds e he hstatus
    · rcases hmore e he with hres | hon
      · exact Or.inl hres
      · rw [hon] at hstatus
        cases hstatus
  backed := by
    intro e he hrel
    rcases List.mem_append.mp he with he | he
    · obtain ⟨r, hr, hback⟩ := h.backed e he hrel
      exact ⟨r, List.mem_append_left _ hr, hback⟩
    · rcases hmore e he with hres | hon
      · have hop := hres.2.symm.trans hrel.2
        cases hop
      · have hstatus := hon.symm.trans hrel.1
        cases hstatus

theorem not_release_of {e : StockEntry} (h : e.isReserve ∨ e.status = .onHand) :
    ¬ e.isRelease := by
  rintro ⟨hstatus, hop⟩
  rcases h with ⟨_, hreserve⟩ | hon
  · rw [hreserve] at hop
    cases hop
  · rw [hon] at hstatus
    cases hstatus

theorem WithinReserved.append (h : WithinReserved rows) (hrows : ReservationRows rows)
    (hnodup : ((rows ++ more).map (·.id)).Nodup)
    (hmore : ∀ e ∈ more, e.isReserve ∧ 0 < e.quantityDelta ∨ e.status = .onHand) :
    WithinReserved (rows ++ more) := by
  intro r hr hres
  rw [remainder_append fun e he => not_release_of ((hmore e he).imp_left And.left)]
  rcases List.mem_append.mp hr with hr | hr
  · exact h r hr hres
  · rcases hmore r hr with ⟨_, hpos⟩ | hon
    · have hfresh : ∀ x ∈ rows, x.id ≠ r.id := by
        rw [List.map_append, List.nodup_append] at hnodup
        intro x hx hid
        exact hnodup.2.2 x.id (List.mem_map_of_mem hx) r.id (List.mem_map_of_mem hr) hid
      rw [remainder, hrows.released_zero hfresh, sub_zero]
      exact le_of_lt hpos
    · have hstatus := hon.symm.trans hres.1
      cases hstatus

end NoRelease

def planned (plan : List (StockEntry × Decimal)) (id : Uuid) : Decimal :=
  tally (fun item => item.1.id = id) (·.2) plan

/-- The reserve rows a build owns in a workspace. -/
def ReserveIn (db : Db) (workspaceId : Uuid) (build : Build) (r : StockEntry) : Prop :=
  r ∈ db.stockEntries ∧ r.isReserve ∧ r.workspaceId = workspaceId ∧ r.buildId = some build.id

section Outstanding

variable {db : Db} {workspaceId : Uuid} {build : Build}

theorem mem_reserveRowsOf :
    r ∈ reserveRowsOf db workspaceId build ↔ ReserveIn db workspaceId build r := by
  simp only [reserveRowsOf, List.mem_insertionSort, List.mem_filter, decide_eq_true_eq, ReserveIn,
    StockEntry.isReserve]
  tauto

theorem releasedByReserve_eq (h : ReservationRows db.stockEntries)
    (hr : ReserveIn db workspaceId build r) :
    (Dict.find (some r.id) (releasedByReserve db workspaceId build)).getD 0 =
      released db.stockEntries r.id := by
  rw [releasedByReserve, Dict.getD_find_totals]
  unfold released tally
  rw [List.filter_filter]
  congr 2
  apply List.filter_congr
  intro e he
  simp only [← Bool.decide_and]
  rw [decide_eq_decide]
  constructor
  · rintro ⟨hid, _, _, hstatus, hop, _⟩
    exact ⟨⟨hstatus, hop⟩, hid⟩
  · rintro ⟨hrel, hid⟩
    -- The row a release points at is `r`, so it carries `r`'s build.
    obtain ⟨s, hs, _, hsid, hws, hbuild, _⟩ := h.backed e he hrel
    have heq : some r.id = some s.id := hid.symm.trans hsid
    obtain rfl := eq_of_id h.nodup hr.1 hs (Option.some.inj heq)
    exact ⟨hid, hws.trans hr.2.2.1, hbuild.trans hr.2.2.2, hrel.1, hrel.2, by simp [hid]⟩

theorem mem_outstanding (h : ReservationRows db.stockEntries) {q : Decimal} :
    (r, q) ∈ (outstandingReservations db workspaceId build).2 ↔
      ReserveIn db workspaceId build r ∧ q = remainder db.stockEntries r ∧ 0 < q := by
  simp only [outstandingReservations, List.mem_filterMap]
  constructor
  · rintro ⟨s, hs, hitem⟩
    rw [mem_reserveRowsOf] at hs
    rw [releasedByReserve_eq h hs] at hitem
    split at hitem
    next hpos =>
      obtain ⟨rfl, rfl⟩ := Prod.mk.inj (Option.some.inj hitem)
      exact ⟨hs, rfl, hpos⟩
    next => cases hitem
  · rintro ⟨hr, rfl, hpos⟩
    refine ⟨r, mem_reserveRowsOf.mpr hr, ?_⟩
    rw [releasedByReserve_eq h hr]
    exact if_pos hpos

theorem map_filterMap_sublist {α β γ : Type} {f : α → Option β} {g : β → γ} {k : α → γ}
    (hf : ∀ a b, f a = some b → g b = k a) (l : List α) :
    ((l.filterMap f).map g).Sublist (l.map k) := by
  induction l with
  | nil => simp
  | cons a l ih =>
    cases hfa : f a with
    | none =>
      rw [List.filterMap_cons_none hfa, List.map_cons]
      exact ih.cons _
    | some b =>
      rw [List.filterMap_cons_some hfa, List.map_cons, List.map_cons, hf a b hfa]
      exact ih.cons_cons _

theorem outstanding_nodup (h : (db.stockEntries.map (·.id)).Nodup) :
    ((outstandingReservations db workspaceId build).2.map (·.1.id)).Nodup := by
  have hsub : ((outstandingReservations db workspaceId build).2.map (·.1.id)).Sublist
      ((reserveRowsOf db workspaceId build).map (·.id)) := by
    apply map_filterMap_sublist
    intro r item hitem
    simp only at hitem
    split at hitem
    next => rw [← Option.some.inj hitem]
    next => cases hitem
  have hperm : ((reserveRowsOf db workspaceId build).map (·.id)).Perm
      ((db.stockEntries.filter fun e => e.workspaceId = workspaceId ∧ e.buildId = some build.id ∧
        e.status = .reserved ∧ e.operationType = .reserve).map (·.id)) :=
    (List.perm_insertionSort _ _).map _
  have hfilter := (List.filter_sublist (l := db.stockEntries)
    (p := fun e => decide (e.workspaceId = workspaceId ∧ e.buildId = some build.id ∧
        e.status = .reserved ∧ e.operationType = .reserve))).map (fun e : StockEntry => e.id)
  exact (hperm.nodup_iff.mpr (hfilter.nodup h)).sublist hsub

theorem planned_outstanding (h : ReservationRows db.stockEntries)
    (hwithin : WithinReserved db.stockEntries)
    (hr : ReserveIn db workspaceId build r) :
    planned (outstandingReservations db workspaceId build).2 r.id =
      remainder db.stockEntries r := by
  rcases lt_or_eq_of_le (hwithin r hr.1 hr.2.1) with hpos | hzero
  · have hmem := (mem_outstanding h).mpr ⟨hr, rfl, hpos⟩
    exact Tally.tally_key (·.2) (fun item : StockEntry × Decimal => item.1.id)
      (outstanding_nodup h.nodup) hmem
  · rw [← hzero]
    apply Tally.tally_eq_zero
    rintro ⟨s, q⟩ hs hid
    obtain ⟨hsIn, hq, hpos⟩ := (mem_outstanding h).mp hs
    obtain rfl := eq_of_id h.nodup hsIn.1 hr.1 hid
    rw [hq, ← hzero] at hpos
    exact lt_irrefl _ hpos

theorem planned_outstanding_other (h : ReservationRows db.stockEntries)
    (hr : r ∈ db.stockEntries) (hother : ¬ ReserveIn db workspaceId build r) :
    planned (outstandingReservations db workspaceId build).2 r.id = 0 := by
  apply Tally.tally_eq_zero
  rintro ⟨s, q⟩ hs hid
  obtain ⟨hsIn, _⟩ := (mem_outstanding h).mp hs
  obtain rfl := eq_of_id h.nodup hsIn.1 hr hid
  exact hother hsIn

theorem planned_outstanding_le (h : ReservationRows db.stockEntries)
    (hwithin : WithinReserved db.stockEntries) (hr : r ∈ db.stockEntries)
    (hres : r.isReserve) :
    planned (outstandingReservations db workspaceId build).2 r.id ≤
      remainder db.stockEntries r := by
  by_cases hin : ReserveIn db workspaceId build r
  · exact le_of_eq (planned_outstanding h hwithin hin)
  · rw [planned_outstanding_other h hr hin]
    exact hwithin r hr hres

end Outstanding

section Releases

variable {db db' : Db} {workspaceId : Uuid} {build : Build} {rows : List StockEntry}
  {plan : List (StockEntry × Decimal)}

theorem planned_cons (item : StockEntry × Decimal) (plan : List (StockEntry × Decimal))
    (id : Uuid) : planned (item :: plan) id = (if item.1.id = id then item.2 else 0) +
      planned plan id := Tally.tally_cons ..

theorem planned_nonneg (h : ∀ item ∈ plan, 0 ≤ item.2) (id : Uuid) : 0 ≤ planned plan id :=
  Tally.tally_nonneg _ _ fun item hitem _ => h item hitem

theorem released_planned (h : List.Forall₂ (ReleaseOf workspaceId build) plan rows) (id : Uuid) :
    released rows id = planned plan id := by
  induction h with
  | nil => rfl
  | @cons item e plan rows hrow _ ih =>
    have hrel : e.isRelease := ⟨hrow.status, hrow.operation⟩
    have hhead : (if e.isRelease ∧ e.relatedEntryId = some id then -e.quantityDelta else 0) =
        if item.1.id = id then item.2 else 0 := by
      simp only [hrel, hrow.related, hrow.delta, true_and, Option.some.injEq, neg_neg]
    rw [planned_cons, ← ih, ← hhead]
    exact Tally.tally_cons ..

theorem Appends.nodup_ids (h : Appends db db' rows) (hn : (db.stockEntries.map (·.id)).Nodup) :
    (db'.stockEntries.map (·.id)).Nodup := by
  rw [h.eq]
  simp only [List.map_append]
  rw [List.nodup_append]
  refine ⟨hn, h.nodup, ?_⟩
  intro i hi j hj hij
  obtain ⟨r, hr, rfl⟩ := List.mem_map.mp hi
  obtain ⟨e, he, rfl⟩ := List.mem_map.mp hj
  exact h.fresh e he r hr hij

/-- What release rows of reserve rows of the build do to the ledger. -/
structure Counters (db db' : Db) (plan : List (StockEntry × Decimal)) : Prop where
  rows : ReservationRows db'.stockEntries
  remainders : ∀ r ∈ db.stockEntries,
    remainder db'.stockEntries r = remainder db.stockEntries r - planned plan r.id
  reserves : ∀ r, r.isReserve → (r ∈ db'.stockEntries ↔ r ∈ db.stockEntries)
  builds : db'.builds = db.builds

theorem appends_counters (h : ReservationRows db.stockEntries) (happends : Appends db db' rows)
    (hrows : List.Forall₂ (ReleaseOf workspaceId build) plan rows)
    (hplan : ∀ item ∈ plan, ReserveIn db workspaceId build item.1) : Counters db db' plan := by
  have hentries : db'.stockEntries = db.stockEntries ++ rows := by rw [happends.eq]
  have hrelease : ∀ e ∈ rows, e.isRelease := by
    intro e he
    obtain ⟨item, _, hrel⟩ := exists_of_forall₂ hrows he
    exact ⟨hrel.status, hrel.operation⟩
  constructor
  case rows =>
    constructor
    case nodup => exact happends.nodup_ids h.nodup
    case kinds =>
      intro e he hstatus
      rw [hentries] at he
      rcases List.mem_append.mp he with he | he
      · exact h.kinds e he hstatus
      · exact Or.inr (hrelease e he)
    case backed =>
      intro e he hrel
      rw [hentries] at he ⊢
      rcases List.mem_append.mp he with he | he
      · obtain ⟨r, hr, hback⟩ := h.backed e he hrel
        exact ⟨r, List.mem_append_left _ hr, hback⟩
      · obtain ⟨item, hitem, hof⟩ := exists_of_forall₂ hrows he
        have hin := hplan item hitem
        exact ⟨item.1, List.mem_append_left _ hin.1, hin.2.1, hof.related,
          hof.workspace.trans hin.2.2.1.symm, hof.buildId.trans hin.2.2.2.symm, hof.part⟩
  case remainders =>
    intro r _
    rw [hentries, remainder, remainder, released_append, released_planned hrows]
    ring
  case reserves =>
    intro r hres
    rw [hentries, List.mem_append]
    refine ⟨fun hr => hr.resolve_right fun hnew => ?_, Or.inl⟩
    have hop := hres.2.symm.trans (hrelease r hnew).2
    cases hop
  case builds => rw [happends.eq]

theorem Counters.within (h : Counters db db' plan)
    (hle : ∀ r ∈ db.stockEntries, r.isReserve → planned plan r.id ≤ remainder db.stockEntries r) :
    WithinReserved db'.stockEntries := by
  intro r hr hres
  have hold := (h.reserves r hres).mp hr
  rw [h.remainders r hold]
  exact sub_nonneg.mpr (hle r hold hres)

theorem drainReserves_eq (want : Decimal) (items : List (StockEntry × Decimal)) :
    drainReserves want items =
      (Draining.drain Prod.snd want items).map fun x => (x.1.1, x.2) := by
  induction items generalizing want with
  | nil => rfl
  | cons head rest ih =>
    unfold drainReserves Draining.drain
    split
    next => rfl
    next => rw [List.map_cons, ih]

theorem drainReserves_mem {want : Decimal} {items : List (StockEntry × Decimal)}
    (hpos : ∀ item ∈ items, 0 < item.2) :
    ∀ item ∈ drainReserves want items, 0 < item.2 ∧ ∃ q, (item.1, q) ∈ items := by
  intro item hitem
  rw [drainReserves_eq] at hitem
  obtain ⟨x, hx, rfl⟩ := List.mem_map.mp hitem
  obtain ⟨hmem, _, htake⟩ := Draining.drain_mem hx
  exact ⟨htake (hpos x.1 hmem), x.1.2, hmem⟩

theorem planned_drainReserves_le {want : Decimal} {items : List (StockEntry × Decimal)}
    (hpos : ∀ item ∈ items, 0 < item.2) (id : Uuid) :
    planned (drainReserves want items) id ≤ planned items id := by
  rw [drainReserves_eq, planned, Tally.tally_map]
  exact Draining.tally_drain_le (fun item hitem => (hpos item hitem).le) want
    fun item => item.1.id = id

theorem mem_plannedReleases (hpos : ∀ item ∈ outstanding, 0 < item.2) :
    ∀ item ∈ plannedReleases outstanding amounts, 0 < item.2 ∧
      (∃ q, (item.1, q) ∈ outstanding) ∧ ∃ p ∈ Dict.keys amounts, item.1.partId = some p := by
  intro item hitem
  simp only [plannedReleases, List.mem_flatMap, Dict.getD_find_gather, List.map_id] at hitem
  obtain ⟨p, hp, hitem⟩ := hitem
  have hsub : ∀ x ∈ outstanding.filter (fun r => r.1.partId = some p), 0 < x.2 :=
    fun x hx => hpos x (List.mem_filter.mp hx).1
  obtain ⟨hq, q, hmem⟩ := drainReserves_mem hsub item hitem
  obtain ⟨hout, hpart⟩ := List.mem_filter.mp hmem
  exact ⟨hq, ⟨q, hout⟩, p, (List.mem_insertionSort _).mp hp, of_decide_eq_true hpart⟩

theorem tally_plannedReleases (hpos : ∀ item ∈ outstanding, 0 < item.2)
    (hkeys : (Dict.keys amounts).Nodup) {partId : Uuid} (p : StockEntry → Prop) [DecidablePred p]
    (hp : ∀ item ∈ outstanding, p item.1 → item.1.partId = some partId) :
    tally (fun item => p item.1) (·.2) (plannedReleases outstanding amounts) =
      tally (fun item => p item.1) (·.2) (drainReserves ((Dict.find partId amounts).getD 0)
        (outstanding.filter fun r => r.1.partId = some partId)) := by
  let parts := (Dict.keys amounts).insertionSort (· ≤ ·)
  let drained := fun q => drainReserves ((Dict.find q amounts).getD 0)
    (outstanding.filter fun r => r.1.partId = some q)
  have hsum : tally (fun item => p item.1) (·.2) (plannedReleases outstanding amounts) =
      (parts.map fun q => tally (fun item => p item.1) (·.2) (drained q)).sum := by
    simp only [plannedReleases, Dict.getD_find_gather, List.map_id]
    exact Tally.tally_flatMap ..
  have hother : ∀ q, q ≠ partId → q ∈ parts →
      tally (fun item => p item.1) (·.2) (drained q) = 0 := by
    intro q hne _
    apply Tally.tally_eq_zero
    intro item hitem hitemP
    have hsub : ∀ x ∈ outstanding.filter (fun r => r.1.partId = some q), 0 < x.2 :=
      fun x hx => hpos x (List.mem_filter.mp hx).1
    obtain ⟨_, remaining, hmem⟩ := drainReserves_mem hsub item hitem
    obtain ⟨hout, hpart⟩ := List.mem_filter.mp hmem
    have hsame := (of_decide_eq_true hpart).symm.trans (hp _ hout hitemP)
    exact hne (Option.some.inj hsame)
  have hparts : parts.Perm (Dict.keys amounts) := List.perm_insertionSort _ _
  rw [hsum, List.sum_map_eq_nsmul_single partId _ hother, hparts.count_eq]
  by_cases hmem : partId ∈ Dict.keys amounts
  · rw [List.count_eq_one_of_mem hkeys hmem, one_nsmul]
  · rw [List.count_eq_zero_of_not_mem hmem, zero_nsmul, Dict.find_eq_none.mpr hmem]
    symm
    apply Tally.tally_eq_zero
    intro item hitem
    rw [drainReserves_eq] at hitem
    obtain ⟨x, hx, _⟩ := List.mem_map.mp hitem
    have hnone : Draining.drain Prod.snd ((none : Option Decimal).getD 0)
        (outstanding.filter fun r => r.1.partId = some partId) = [] := by
      cases outstanding.filter fun r => r.1.partId = some partId with
      | nil => rfl
      | cons _ _ => exact if_pos le_rfl
    rw [hnone] at hx
    cases hx

/-- A planned release takes from a reserve row at most what is left of it. -/
theorem planned_plannedReleases_le (hpos : ∀ item ∈ outstanding, 0 < item.2)
    (hkeys : (Dict.keys amounts).Nodup) (id : Uuid) :
    planned (plannedReleases outstanding amounts) id ≤ planned outstanding id := by
  let parts := (Dict.keys amounts).insertionSort (· ≤ ·)
  have hparts : (parts.map some).Nodup :=
    ((List.perm_insertionSort _ _).nodup_iff.mpr hkeys).map (Option.some_injective _)
  have hsum : planned (plannedReleases outstanding amounts) id =
      (parts.map fun p => planned (drainReserves ((Dict.find p amounts).getD 0)
        (outstanding.filter fun r => r.1.partId = some p)) id).sum := by
    simp only [plannedReleases, Dict.getD_find_gather, List.map_id, planned]
    exact Tally.tally_flatMap ..
  have hpart : ∀ p, planned (outstanding.filter fun r => r.1.partId = some p) id =
      tally (fun item : StockEntry × Decimal => item.1.id = id ∧ item.1.partId = some p) (·.2)
        outstanding := by
    intro p
    simp only [planned, tally, List.filter_filter, ← Bool.decide_and]
  have hgroup : (parts.map fun p => planned (outstanding.filter fun r => r.1.partId = some p)
      id).sum ≤ planned outstanding id := by
    have hkeys := Tally.tally_keys_le (fun item : StockEntry × Decimal => item.1.id = id) (·.2)
      (fun item => item.1.partId) hparts fun item hitem => le_of_lt (hpos item hitem)
    rw [List.map_map] at hkeys
    simp only [hpart]
    exact hkeys
  rw [hsum]
  refine le_trans (List.sum_le_sum fun p _ => ?_) hgroup
  exact planned_drainReserves_le (fun x hx => hpos x (List.mem_filter.mp hx).1) id

theorem outstanding_pos {item : StockEntry × Decimal}
    (h : item ∈ (outstandingReservations db workspaceId build).2) : 0 < item.2 := by
  simp only [outstandingReservations, List.mem_filterMap] at h
  obtain ⟨r, _, hitem⟩ := h
  split at hitem
  next hpos => exact Option.some.inj hitem ▸ hpos
  next => cases hitem

end Releases

end StockManager
