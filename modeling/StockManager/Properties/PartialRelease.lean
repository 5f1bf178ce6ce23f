import StockManager.Properties.Reservations

/-! # Partial releases

A stage releases the slice it consumes. Whatever was released before, the amount
of each part, or all that is left of it, comes off the build's oldest reserve
rows, and a whole release afterwards leaves nothing. -/

namespace StockManager

/-- What is left of a build's reserve rows of one part. -/
def outstandingOf (rows : List StockEntry) (workspaceId : Uuid) (build : Build) (partId : Uuid) :
    Decimal :=
  tally (fun r => (r.isReserve ∧ r.workspaceId = workspaceId ∧ r.buildId = some build.id) ∧
    r.partId = some partId) (remainder rows) rows

/-- `ORDER BY occurred_at, id` -/
def StockEntry.drainKey (e : StockEntry) : Timestamp ×ₗ Uuid := toLex (e.occurredAt, e.id)

theorem StockEntry.drainKey_ne {a b : StockEntry} (h : a.id ≠ b.id) : a.drainKey ≠ b.drainKey :=
  fun heq => h (congrArg Prod.snd (toLex.injective heq))

section Order

variable {db : Db} {workspaceId : Uuid} {build : Build}

theorem reserveRowsOf_sorted (h : (db.stockEntries.map (·.id)).Nodup) :
    (reserveRowsOf db workspaceId build).Pairwise fun a b => a.drainKey < b.drainKey := by
  let before := fun a b : StockEntry =>
    a.occurredAt < b.occurredAt ∨ a.occurredAt = b.occurredAt ∧ a.id ≤ b.id
  have hbefore : ∀ a b, before a b ↔ a.drainKey ≤ b.drainKey := by
    intro a b
    rw [StockEntry.drainKey, StockEntry.drainKey, Prod.Lex.toLex_le_toLex]
  have htotal : Std.Total before :=
    ⟨fun a b => by simp only [hbefore]; exact le_total _ _⟩
  have htrans : IsTrans StockEntry before :=
    ⟨fun a b c => by simp only [hbefore]; exact le_trans⟩
  have hsorted := List.pairwise_insertionSort before (db.stockEntries.filter fun e =>
    e.workspaceId = workspaceId ∧ e.buildId = some build.id ∧ e.status = .reserved ∧
      e.operationType = .reserve)
  have hids : (reserveRowsOf db workspaceId build).Pairwise fun a b => a.id ≠ b.id := by
    have hperm := (List.perm_insertionSort before (db.stockEntries.filter fun e =>
      e.workspaceId = workspaceId ∧ e.buildId = some build.id ∧ e.status = .reserved ∧
        e.operationType = .reserve)).map (·.id)
    exact List.pairwise_map.mp (hperm.nodup_iff.mpr (h.sublist (List.filter_sublist.map _)))
  refine List.Pairwise.imp₂ ?_ hsorted hids
  intro a b hab hne
  exact lt_of_le_of_ne ((hbefore a b).mp hab) (StockEntry.drainKey_ne hne)

theorem outstanding_sorted (h : (db.stockEntries.map (·.id)).Nodup) :
    (outstandingReservations db workspaceId build).2.Pairwise
      fun a b => a.1.drainKey < b.1.drainKey := by
  simp only [outstandingReservations]
  rw [List.pairwise_filterMap]
  apply (reserveRowsOf_sorted h).imp
  intro a b hab x hx y hy
  split at hx
  next =>
    split at hy
    next => rwa [← Option.some.inj hx, ← Option.some.inj hy]
    next => cases hy
  next => cases hx

theorem outstanding_sum (h : ReservationRows db.stockEntries)
    (hwithin : WithinReserved db.stockEntries) (partId : Uuid) :
    tally (fun item => item.1.partId = some partId) (·.2)
      (outstandingReservations db workspaceId build).2 =
        outstandingOf db.stockEntries workspaceId build partId := by
  have hlist : (outstandingReservations db workspaceId build).2 =
      (reserveRowsOf db workspaceId build).filterMap fun r =>
        if 0 < remainder db.stockEntries r then some (r, remainder db.stockEntries r)
        else none := by
    apply List.filterMap_congr
    intro r hr
    simp only
    rw [releasedByReserve_eq h (mem_reserveRowsOf.mp hr)]
    rfl
  have hnonneg : ∀ r ∈ reserveRowsOf db workspaceId build, 0 ≤ remainder db.stockEntries r := by
    intro r hr
    have hin := mem_reserveRowsOf.mp hr
    exact hwithin r hin.1 hin.2.1
  have hkept : tally (fun item => item.1.partId = some partId) (·.2)
      ((reserveRowsOf db workspaceId build).filterMap fun r =>
        if 0 < remainder db.stockEntries r then some (r, remainder db.stockEntries r) else none) =
      tally (fun r => r.partId = some partId) (remainder db.stockEntries)
        (reserveRowsOf db workspaceId build) := by
    apply Tally.tally_filterMap
    · intro r _ item hitem
      split at hitem
      next => exact Option.some.inj hitem ▸ ⟨Iff.rfl, rfl⟩
      next => cases hitem
    · intro r hr hitem _
      split at hitem
      next => cases hitem
      next hnone => exact le_antisymm (not_lt.mp hnone) (hnonneg r hr)
  rw [hlist, hkept, reserveRowsOf, Tally.tally_perm _ _ (List.perm_insertionSort _ _), Tally.tally_filter]
  apply Tally.tally_congr
  · intro r _
    unfold StockEntry.isReserve
    tauto
  · exact fun _ _ _ => rfl

end Order

/-- The step took something of the row, and something is left. -/
def PartlyDrained (db db' : Db) (r : StockEntry) : Prop :=
  remainder db'.stockEntries r ≠ remainder db.stockEntries r ∧ remainder db'.stockEntries r ≠ 0

/-- The call took from each part what it was asked for, or all that was left, off the oldest
reserve rows of the build. -/
structure ExactRelease (workspaceId : Uuid) (build : Build) (amounts : List (Uuid × Decimal))
    (db db' : Db) : Prop where
  written : ∃ rows, db' = { db with stockEntries := db.stockEntries ++ rows } ∧
    (∀ e ∈ rows, e.isRelease ∧ e.workspaceId = workspaceId ∧ e.buildId = some build.id ∧
      e.quantityDelta < 0 ∧ ∃ p ∈ Dict.keys amounts, e.partId = some p) ∧
    ∀ partId, tally (fun e => e.partId = some partId) (fun e => -e.quantityDelta) rows =
      max 0 (min ((Dict.find partId amounts).getD 0)
        (outstandingOf db.stockEntries workspaceId build partId))
  bounded : ∀ r ∈ db.stockEntries, r.isReserve →
    0 ≤ remainder db'.stockEntries r ∧ remainder db'.stockEntries r ≤ remainder db.stockEntries r
  untouched : ∀ r ∈ db.stockEntries, r.isReserve →
    ¬ (ReserveIn db workspaceId build r ∧ ∃ p ∈ Dict.keys amounts, r.partId = some p) →
      remainder db'.stockEntries r = remainder db.stockEntries r
  oldestFirst : ∀ r s, ReserveIn db workspaceId build r → ReserveIn db workspaceId build s →
    r.partId = s.partId → r.drainKey < s.drainKey →
      remainder db'.stockEntries s ≠ remainder db.stockEntries s →
        remainder db'.stockEntries r = 0
  onePartly : ∀ r s, ReserveIn db workspaceId build r → ReserveIn db workspaceId build s →
    r.partId = s.partId → PartlyDrained db db' r → PartlyDrained db db' s → r = s

theorem exists_of_planned {plan : List (StockEntry × Decimal)} {id : Uuid}
    (h : planned plan id ≠ 0) : ∃ x ∈ plan, x.1.id = id := by
  by_contra hnone
  push Not at hnone
  exact h (Tally.tally_eq_zero _ _ hnone)

section Release

variable {ctx : Ctx} {db db' : Db} {build : Build} {amounts : List (Uuid × Decimal)}
  {buildStageId : Option Uuid} {n : ℕ}

theorem planned_of_part (h : ReservationRows db.stockEntries)
    (hkeys : (Dict.keys amounts).Nodup) {workspaceId partId : Uuid} {r : StockEntry}
    (hr : r ∈ db.stockEntries) (hpart : r.partId = some partId) :
    planned (plannedReleases (outstandingReservations db workspaceId build).2 amounts) r.id =
      planned (drainReserves ((Dict.find partId amounts).getD 0)
        ((outstandingReservations db workspaceId build).2.filter
          fun item => item.1.partId = some partId)) r.id := by
  apply tally_plannedReleases (fun item hitem => outstanding_pos hitem) hkeys fun e => e.id = r.id
  intro item hitem hid
  obtain ⟨hin, _⟩ := (mem_outstanding h).mp hitem
  rw [eq_of_id h.nodup hin.1 hr hid]
  exact hpart

theorem plannedReleases_sum (h : ReservationRows db.stockEntries)
    (hwithin : WithinReserved db.stockEntries) (hkeys : (Dict.keys amounts).Nodup)
    (workspaceId partId : Uuid) :
    tally (fun item => item.1.partId = some partId) (·.2)
      (plannedReleases (outstandingReservations db workspaceId build).2 amounts) =
        max 0 (min ((Dict.find partId amounts).getD 0)
          (outstandingOf db.stockEntries workspaceId build partId)) := by
  let items := (outstandingReservations db workspaceId build).2.filter
    fun item => item.1.partId = some partId
  have hpart : ∀ item ∈ items, item.1.partId = some partId :=
    fun item hitem => of_decide_eq_true (List.mem_filter.mp hitem).2
  have hpos : ∀ item ∈ items, 0 ≤ item.2 :=
    fun item hitem => (outstanding_pos (List.mem_filter.mp hitem).1).le
  have hdrain := Draining.drain_sum hpos ((Dict.find partId amounts).getD 0)
  have hleft : (items.map (·.2)).sum =
      outstandingOf db.stockEntries workspaceId build partId := outstanding_sum h hwithin partId
  have hnonneg : 0 ≤ outstandingOf db.stockEntries workspaceId build partId :=
    hleft ▸ Draining.sum_sizes_nonneg hpos
  rw [tally_plannedReleases (fun item hitem => outstanding_pos hitem) hkeys
    (fun e => e.partId = some partId) fun _ _ hp => hp, drainReserves_eq, Tally.tally_map,
    Tally.tally_all _ _ fun x hx => hpart x.1 (Draining.drain_mem hx).1]
  exact hdrain.trans (by rw [hleft, max_min_distrib_left, max_eq_right hnonneg])

theorem released_of_part {workspaceId partId : Uuid} {plan : List (StockEntry × Decimal)}
    {rows : List StockEntry} (h : List.Forall₂ (ReleaseOf workspaceId build) plan rows) :
    tally (fun e => e.partId = some partId) (fun e => -e.quantityDelta) rows =
      tally (fun item => item.1.partId = some partId) (·.2) plan := by
  induction h with
  | nil => rfl
  | @cons item e plan rows hrow _ ih =>
    rw [Tally.tally_cons, Tally.tally_cons, ih, hrow.part, hrow.delta, neg_neg]

theorem planned_before (h : ReservationRows db.stockEntries)
    (hwithin : WithinReserved db.stockEntries) (hkeys : (Dict.keys amounts).Nodup)
    {workspaceId : Uuid} {r s : StockEntry} (hr : ReserveIn db workspaceId build r)
    (hs : ReserveIn db workspaceId build s) (hpart : r.partId = s.partId)
    (hbefore : r.drainKey < s.drainKey)
    (htouched : planned (plannedReleases (outstandingReservations db workspaceId build).2 amounts)
      s.id ≠ 0) :
    planned (plannedReleases (outstandingReservations db workspaceId build).2 amounts) r.id =
      remainder db.stockEntries r := by
  let outstanding := (outstandingReservations db workspaceId build).2
  have hpos : ∀ item ∈ outstanding, 0 < item.2 := fun item hitem => outstanding_pos hitem
  have hle : planned (plannedReleases outstanding amounts) r.id ≤ remainder db.stockEntries r :=
    (planned_plannedReleases_le hpos hkeys r.id).trans (planned_outstanding h hwithin hr).le
  rcases lt_or_eq_of_le (hwithin r hr.1 hr.2.1) with hleft | hnothing
  case inr =>
    rw [← hnothing] at hle ⊢
    exact le_antisymm hle (planned_nonneg (fun x hx => (mem_plannedReleases hpos x hx).1.le) r.id)
  -- Some release of the plan is for `s`, so its part is named.
  obtain ⟨x, hx, hxid⟩ := exists_of_planned htouched
  obtain ⟨_, ⟨q, hq⟩, partId, _, hxpart⟩ := mem_plannedReleases hpos x hx
  obtain ⟨hxin, _⟩ := (mem_outstanding h).mp hq
  have hsx : x.1 = s := eq_of_id h.nodup hxin.1 hs.1 hxid
  have hspart : s.partId = some partId := hsx ▸ hxpart
  let items := outstanding.filter fun item => item.1.partId = some partId
  have hsorted : items.Pairwise fun a b => a.1.drainKey < b.1.drainKey :=
    (outstanding_sorted h.nodup).sublist List.filter_sublist
  rw [planned_of_part h hkeys hs.1 hspart, drainReserves_eq] at htouched
  rw [planned_of_part h hkeys hr.1 (hpart.trans hspart), drainReserves_eq]
  obtain ⟨y, hy, hyid⟩ := exists_of_planned htouched
  obtain ⟨z, hz, rfl⟩ := List.mem_map.mp hy
  obtain ⟨hzitem, _⟩ := List.mem_filter.mp (Draining.drain_mem hz).1
  have hzs : z.1.1 = s := eq_of_id h.nodup ((mem_outstanding h).mp hzitem).1.1 hs.1 hyid
  have hritem : (r, remainder db.stockEntries r) ∈ items :=
    List.mem_filter.mpr ⟨(mem_outstanding h).mpr ⟨hr, rfl, hleft⟩,
      decide_eq_true (hpart.trans hspart)⟩
  have hdrained := Draining.drain_before (fun _ _ => lt_asymm) hsorted hritem hz
    (by rw [hzs]; exact hbefore)
  have hids : ((Draining.drain Prod.snd ((Dict.find partId amounts).getD 0) items).map
      (·.1.1.id)).Nodup := by
    have hgives : ((Draining.drain Prod.snd ((Dict.find partId amounts).getD 0) items).map
        Prod.fst).Sublist items := Draining.drain_sublist _ _
    have hsub := hgives.map (·.1.id)
    rw [List.map_map] at hsub
    exact hsub.nodup ((outstanding_nodup h.nodup).sublist (List.filter_sublist.map _))
  rw [planned, Tally.tally_map]
  exact Tally.tally_key (·.2) (fun w => w.1.1.id) hids hdrained

theorem releaseReservationAmounts_release (h : ReservationsSound db)
    (hkeys : (Dict.keys amounts).Nodup)
    (hrelease : releaseReservationAmounts ctx db build amounts buildStageId = .ok (n, db')) :
    ExactRelease ctx.workspaceId build amounts db db' := by
  obtain ⟨rows, happends, hrows⟩ := releaseReservationAmounts_rows hrelease
  let plan := plannedReleases (outstandingReservations db ctx.workspaceId build).2 amounts
  have hpos : ∀ item ∈ (outstandingReservations db ctx.workspaceId build).2, 0 < item.2 :=
    fun item hitem => outstanding_pos hitem
  have hmem := @mem_plannedReleases _ amounts hpos
  have hcounters := appends_counters h.rows happends hrows fun item hitem =>
    ((mem_outstanding h.rows).mp (hmem item hitem).2.1.choose_spec).1
  have hnonneg : ∀ id, 0 ≤ planned plan id :=
    fun id => planned_nonneg (fun item hitem => (hmem item hitem).1.le) id
  have holdest : ∀ r s, ReserveIn db ctx.workspaceId build r →
      ReserveIn db ctx.workspaceId build s → r.partId = s.partId → r.drainKey < s.drainKey →
        remainder db'.stockEntries s ≠ remainder db.stockEntries s →
          remainder db'.stockEntries r = 0 := by
    intro r s hr hs hpart hbefore htouched
    have hplanned : planned plan s.id ≠ 0 := by
      intro hnone
      rw [hcounters.remainders s hs.1, hnone, sub_zero] at htouched
      exact htouched rfl
    rw [hcounters.remainders r hr.1, sub_eq_zero]
    exact (planned_before h.rows h.within hkeys hr hs hpart hbefore hplanned).symm
  constructor
  case written =>
    refine ⟨rows, happends.eq, ?_, ?_⟩
    · intro e he
      obtain ⟨item, hitem, hof⟩ := exists_of_forall₂ hrows he
      obtain ⟨hq, _, p, hp, hpart⟩ := hmem item hitem
      refine ⟨⟨hof.status, hof.operation⟩, hof.workspace, hof.buildId, ?_, p, hp,
        hof.part.trans hpart⟩
      rw [hof.delta]
      exact neg_lt_zero.mpr hq
    · intro partId
      rw [released_of_part hrows]
      exact plannedReleases_sum h.rows h.within hkeys ctx.workspaceId partId
  case bounded =>
    intro r hr hres
    have hle : planned plan r.id ≤ remainder db.stockEntries r :=
      (planned_plannedReleases_le hpos hkeys r.id).trans
        (planned_outstanding_le h.rows h.within hr hres)
    rw [hcounters.remainders r hr]
    exact ⟨sub_nonneg.mpr hle, sub_le_self _ (hnonneg r.id)⟩
  case untouched =>
    intro r hr hres hother
    have hnone : planned plan r.id = 0 := by
      by_contra htouched
      obtain ⟨x, hx, hid⟩ := exists_of_planned htouched
      obtain ⟨_, ⟨q, hout⟩, hp⟩ := hmem x hx
      obtain ⟨hin, _⟩ := (mem_outstanding h.rows).mp hout
      obtain rfl := eq_of_id h.rows.nodup hin.1 hr hid
      exact hother ⟨hin, hp⟩
    rw [hcounters.remainders r hr, hnone, sub_zero]
  case oldestFirst => exact holdest
  case onePartly =>
    intro r s hr hs hpart hrPartly hsPartly
    by_contra hne
    have hid : r.id ≠ s.id := fun hid => hne (eq_of_id h.rows.nodup hr.1 hs.1 hid)
    rcases lt_or_gt_of_ne (StockEntry.drainKey_ne hid) with hlt | hgt
    · exact hrPartly.2 (holdest r s hr hs hpart hlt hsPartly.1)
    · exact hsPartly.2 (holdest s r hs hr hpart.symm hgt hrPartly.1)

/-- A whole release leaves nothing of the build's reserve rows, and the next one writes nothing. -/
structure WholeRelease (workspaceId : Uuid) (build : Build) (db' : Db) : Prop where
  nothingLeft : ∀ r, ReserveIn db' workspaceId build r → remainder db'.stockEntries r = 0
  again : ∀ ctx : Ctx, ctx.workspaceId = workspaceId →
    releaseReservations ctx db' build = .ok (0, db')

theorem releaseReservations_release (h : ReservationsSound db)
    (hrelease : releaseReservations ctx db build = .ok (n, db')) :
    WholeRelease ctx.workspaceId build db' := by
  obtain ⟨rows, happends, hrows⟩ := releaseReservations_rows hrelease
  have hcounters := appends_counters h.rows happends hrows fun item hitem =>
    ((mem_outstanding h.rows).mp hitem).1
  have hnothing : ∀ r, ReserveIn db' ctx.workspaceId build r →
      remainder db'.stockEntries r = 0 := by
    intro r hr
    have hold : ReserveIn db ctx.workspaceId build r :=
      ⟨(hcounters.reserves r hr.2.1).mp hr.1, hr.2⟩
    rw [hcounters.remainders r hold.1, planned_outstanding h.rows h.within hold, sub_self]
  refine ⟨hnothing, ?_⟩
  rintro ctx' hws
  have hempty : (outstandingReservations db' ctx'.workspaceId build).2 = [] := by
    rw [hws, List.eq_nil_iff_forall_not_mem]
    rintro ⟨r, q⟩ hout
    obtain ⟨hin, hq, hpos⟩ := (mem_outstanding hcounters.rows).mp hout
    rw [hq, hnothing r hin] at hpos
    exact lt_irrefl _ hpos
  unfold releaseReservations
  simp only [hempty]
  split <;> rfl

end Release

/-- A partial release of a build: the amounts of the parts, one each, and the stage. -/
structure PartialRelease where
  ctx : Ctx
  amounts : List (Uuid × Decimal)
  buildStageId : Option Uuid
  keys : (Dict.keys amounts).Nodup

def PartialRelease.exec (build : Build) (release : PartialRelease) (db : Db) : Except Err Db :=
  (releaseReservationAmounts release.ctx db build release.amounts release.buildStageId).map Prod.snd

/-- Whatever requests ran and whatever was released before, a partial release is exact,
and a whole release after it leaves nothing. -/
theorem releaseReservationAmounts_exact {db₀ : Db} (hempty : db₀.stockEntries = [])
    (calls : List Call) (build : Build) (earlier : List PartialRelease) (release : PartialRelease)
    {db' : Db} (hrelease : release.exec build
      (Outcome.run (PartialRelease.exec build) (runCalls db₀ calls) earlier) = .ok db') :
    ExactRelease release.ctx.workspaceId build release.amounts
        (Outcome.run (PartialRelease.exec build) (runCalls db₀ calls) earlier) db' ∧
      ∀ (ctx : Ctx) (n : ℕ) (db'' : Db),
        releaseReservations ctx db' build = .ok (n, db'') →
          WholeRelease ctx.workspaceId build db'' := by
  have hstep : ∀ (r : PartialRelease) (db next : Db), ReservationsSound db →
      r.exec build db = .ok next → ReservationsSound next := by
    intro r db next h hexec
    obtain ⟨⟨m, _⟩, hop, rfl⟩ := Outcome.map_ok.mp hexec
    exact (releaseReservationAmounts_keepsFree h r.keys hop).sound
  have hsound := Outcome.run_invariant hstep earlier (reservationsSound_of_run hempty calls)
  have hsound' := hstep release _ _ hsound hrelease
  obtain ⟨⟨m, _⟩, hop, rfl⟩ := Outcome.map_ok.mp hrelease
  exact ⟨releaseReservationAmounts_release hsound release.keys hop,
    fun ctx n db'' hwhole => releaseReservations_release hsound' hwhole⟩

/-- Two BOM lines of one part. -/
def sampleTwoLinesDb : Db :=
  { sampleDb with
    projects := [⟨30, 1, none⟩]
    projectEntries := [sampleEntry 40 10 2, sampleEntry 41 10 4] }

/-- One of six reserved bolts is released, then four more: one is left of the second row. -/
theorem releaseReservationAmounts_exact_sample :
    ∃ (earlier release : PartialRelease) (build : Build) (db' : Db),
      release.amounts = [(10, 4)] ∧
      (db'.stockEntries.filter (·.isReserve)).map (remainder db'.stockEntries) = [0, 1] ∧
      ExactRelease 1 build release.amounts (Outcome.run (PartialRelease.exec build)
        (runCalls sampleTwoLinesDb [⟨sampleCtx 100, sampleBuild 1 (by decide)⟩]) [earlier]) db' := by
  let earlier : PartialRelease := ⟨sampleCtx 200, [(10, 1)], none, by decide⟩
  let release : PartialRelease := ⟨sampleCtx 300, [(10, 4)], none, by decide⟩
  let build := newBuild (sampleCtx 100) (sampleBuildIn 1 (by decide)) ⟨30, 1, none⟩
  let db := runCalls sampleTwoLinesDb [⟨sampleCtx 100, sampleBuild 1 (by decide)⟩]
  let before := Outcome.run (PartialRelease.exec build) db [earlier]
  have hleft : ((release.exec build before).toOption.map fun db' =>
      (db'.stockEntries.filter (·.isReserve)).map (remainder db'.stockEntries)) = some [0, 1] := by
    decide +kernel
  cases hexec : release.exec build before with
  | error e =>
    rw [hexec] at hleft
    cases hleft
  | ok db' =>
    rw [hexec] at hleft
    exact ⟨earlier, release, build, db', rfl, Option.some.inj hleft,
      (releaseReservationAmounts_exact rfl _ build [earlier] release hexec).1⟩

end StockManager
