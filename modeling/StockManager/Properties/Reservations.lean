import StockManager.Effects.Allocation

/-! # Reservations of closed builds

A build that is complete, cancelled or archived should hold nothing back. The
routes release on cancel, archive and consume; a PATCH to `complete` does not,
and a quantity PATCH reserves again even on an archived build. Every other
route keeps closed builds free. -/

namespace StockManager

variable {db db' : Db} {project : Project} {payload : ConsumeIn}

def Build.closed (b : Build) : Prop :=
  b.status = .complete ∨ b.status = .cancelled ∨ b.archivedAt ≠ none

/-- Nothing is left of the reserve rows of the build `id`. -/
def Freed (db : Db) (id : Uuid) : Prop :=
  ∀ r ∈ db.stockEntries, r.isReserve → r.buildId = some id → remainder db.stockEntries r = 0

def ClosedFreeBut (exempt : Option Uuid) (db : Db) : Prop :=
  ∀ id b, db.build id = some b → b.closed → some id ≠ exempt → Freed db id

def ClosedFree (db : Db) : Prop :=
  ∀ id b, db.build id = some b → b.closed → Freed db id

/-- The reserved rows are well formed, and every reserve row has its build. -/
structure ReservationsSound (db : Db) : Prop where
  rows : ReservationRows db.stockEntries
  within : WithinReserved db.stockEntries
  owned : ∀ r ∈ db.stockEntries, r.isReserve → ∃ b, db.build b.id = some b ∧
    r.buildId = some b.id ∧ r.workspaceId = b.workspaceId

theorem ClosedFree.but (h : ClosedFree db) (exempt : Option Uuid) :
    ClosedFreeBut exempt db := fun id b hb hclosed _ => h id b hb hclosed

theorem ClosedFreeBut.all {id : Uuid} (h : ClosedFreeBut (some id) db)
    (hfreed : Freed db id) : ClosedFree db := by
  intro k b hb hclosed
  by_cases hk : k = id
  · exact hk ▸ hfreed
  · exact h k b hb hclosed fun heq => hk (Option.some.inj heq)

/-- Apart from the rows `new`, a reserve row was there before, and what had nothing left has
nothing left. -/
def Settled (new : StockEntry → Prop) (db db' : Db) : Prop :=
  ∀ r ∈ db'.stockEntries, r.isReserve → new r ∨ r ∈ db.stockEntries ∧
    (remainder db.stockEntries r = 0 → remainder db'.stockEntries r = 0)

theorem Settled.trans {new : StockEntry → Prop} {a b c : Db} (h : Settled new a b)
    (k : Settled new b c) : Settled new a c := by
  intro r hr hres
  rcases k r hr hres with hnew | ⟨hold, hkeep⟩
  · exact .inl hnew
  · rcases h r hold hres with hnew | ⟨hfirst, hkept⟩
    · exact .inl hnew
    · exact .inr ⟨hfirst, fun hzero => hkeep (hkept hzero)⟩

theorem Settled.imp {new new' : StockEntry → Prop} (h : Settled new db db')
    (himp : ∀ r, new r → new' r) : Settled new' db db' := by
  intro r hr hres
  exact (h r hr hres).imp_left (himp r)

theorem settled_same {new : StockEntry → Prop}
    (h : db'.stockEntries = db.stockEntries) : Settled new db db' := by
  intro r hr _
  rw [h] at hr ⊢
  exact .inr ⟨hr, id⟩

def Nothing (_ : StockEntry) : Prop := False

theorem Settled.freed (h : Settled Nothing db db') (id : Uuid) (hfreed : Freed db id) :
    Freed db' id := by
  intro r hr hres hbuild
  obtain ⟨hold, hkeep⟩ := (h r hr hres).resolve_left not_false
  exact hkeep (hfreed r hold hres hbuild)

/-- The builds stay, the reserved rows stay sound, and no row that is spent comes back. -/
structure KeepsFree (db db' : Db) : Prop where
  sound : ReservationsSound db'
  builds : db'.builds = db.builds
  settled : Settled Nothing db db'

theorem KeepsFree.freed (h : KeepsFree db db') (id : Uuid) (hfreed : Freed db id) :
    Freed db' id := h.settled.freed id hfreed

theorem KeepsFree.closedFreeBut (h : KeepsFree db db') {exempt : Option Uuid}
    (hfree : ClosedFreeBut exempt db) : ClosedFreeBut exempt db' := by
  intro id b hb hclosed hne
  simp only [Db.build, h.builds] at hb
  exact h.freed id (hfree id b hb hclosed hne)

theorem KeepsFree.closedFree (h : KeepsFree db db') (hfree : ClosedFree db) :
    ClosedFree db' := by
  intro id b hb hclosed
  simp only [Db.build, h.builds] at hb
  exact h.freed id (hfree id b hb hclosed)

theorem KeepsFree.build (h : KeepsFree db db') (id : Uuid) :
    db'.build id = db.build id := by
  simp only [Db.build, h.builds]

theorem onHandOnly_keepsFree (h : ReservationsSound db) (hon : OnHandOnly db db') :
    KeepsFree db db' := by
  obtain ⟨rows, hrows, hstatus⟩ := hon.rows
  have hnodup : ((db.stockEntries ++ rows).map (·.id)).Nodup := hrows ▸ hon.nodup h.rows.nodup
  have hnorelease : ∀ e ∈ rows, ¬ e.isRelease := fun e he => not_release_of (Or.inr (hstatus e he))
  have hold : ∀ r ∈ db.stockEntries ++ rows, r.isReserve → r ∈ db.stockEntries := by
    intro r hr hres
    refine (List.mem_append.mp hr).resolve_right fun hnew => ?_
    have hboth := (hstatus r hnew).symm.trans hres.1
    cases hboth
  constructor
  case builds => exact hon.builds.builds
  case sound =>
    constructor
    case rows =>
      rw [hrows]
      exact h.rows.append hnodup fun e he => Or.inr (hstatus e he)
    case within =>
      rw [hrows]
      exact h.within.append h.rows hnodup fun e he => Or.inr (hstatus e he)
    case owned =>
      intro r hr hres
      simp only [Db.build, hon.builds.builds]
      exact h.owned r (hold r (hrows ▸ hr) hres) hres
  case settled =>
    intro r hr hres
    rw [hrows] at hr ⊢
    rw [remainder_append hnorelease]
    exact .inr ⟨hold r hr hres, id⟩

theorem stockChain_keepsFree (h : ReservationsSound db)
    (hchain : StockChain (fun _ _ _ => True) db db') : KeepsFree db db' :=
  onHandOnly_keepsFree h (stockChain_onHandOnly hchain)

theorem counters_keepsFree {plan : List (StockEntry × Decimal)}
    (h : ReservationsSound db) (hcounters : Counters db db' plan)
    (hnonneg : ∀ item ∈ plan, 0 ≤ item.2)
    (hle : ∀ r ∈ db.stockEntries, r.isReserve →
      planned plan r.id ≤ remainder db.stockEntries r) : KeepsFree db db' := by
  constructor
  case builds => exact hcounters.builds
  case sound =>
    refine ⟨hcounters.rows, hcounters.within hle, ?_⟩
    intro r hr hres
    simp only [Db.build, hcounters.builds]
    exact h.owned r ((hcounters.reserves r hres).mp hr) hres
  case settled =>
    intro r hr hres
    have hold := (hcounters.reserves r hres).mp hr
    refine .inr ⟨hold, fun hzero => ?_⟩
    have hupper := hle r hold hres
    have hlower := planned_nonneg hnonneg r.id
    rw [hzero] at hupper
    rw [hcounters.remainders r hold, hzero, le_antisymm hupper hlower, sub_zero]

section Services

variable {ctx : Ctx} {db db' : Db} {build b : Build} {project : Project} {n : ℕ}

theorem releaseReservations_keepsFree (h : ReservationsSound db) (hb : db.build build.id = some b)
    (hrelease : releaseReservations ctx db build = .ok (n, db'))
    (hws : b.workspaceId = ctx.workspaceId) :
    KeepsFree db db' ∧ Freed db' build.id := by
  obtain ⟨rows, happends, hrows⟩ := releaseReservations_rows hrelease
  have hplan : ∀ item ∈ (outstandingReservations db ctx.workspaceId build).2,
      ReserveIn db ctx.workspaceId build item.1 :=
    fun item hitem => ((mem_outstanding h.rows).mp hitem).1
  have hcounters := appends_counters h.rows happends hrows hplan
  constructor
  · exact counters_keepsFree h hcounters (fun item hitem => le_of_lt (outstanding_pos hitem))
      fun r hr hres => planned_outstanding_le h.rows h.within hr hres
  · intro r hr hres hbuild
    have hold := (hcounters.reserves r hres).mp hr
    obtain ⟨owner, howner, hid, hrws⟩ := h.owned r hold hres
    have hidEq : owner.id = build.id := Option.some.inj (hid.symm.trans hbuild)
    rw [hidEq, hb] at howner
    obtain rfl := Option.some.inj howner
    have hin : ReserveIn db ctx.workspaceId build r := ⟨hold, hres, hrws.trans hws, hbuild⟩
    rw [hcounters.remainders r hold, planned_outstanding h.rows h.within hin, sub_self]

theorem releaseReservationAmounts_keepsFree {amounts : List (Uuid × Decimal)}
    {buildStageId : Option Uuid} (h : ReservationsSound db) (hkeys : (Dict.keys amounts).Nodup)
    (hrelease : releaseReservationAmounts ctx db build amounts buildStageId = .ok (n, db')) :
    KeepsFree db db' := by
  obtain ⟨rows, happends, hrows⟩ := releaseReservationAmounts_rows hrelease
  have hpos : ∀ item ∈ (outstandingReservations db ctx.workspaceId build).2, 0 < item.2 :=
    fun item hitem => outstanding_pos hitem
  have hmem : ∀ item ∈ plannedReleases (outstandingReservations db ctx.workspaceId build).2 amounts,
      0 ≤ item.2 ∧ ReserveIn db ctx.workspaceId build item.1 := by
    intro item hitem
    obtain ⟨hq, ⟨q, hout⟩, _⟩ := mem_plannedReleases hpos item hitem
    exact ⟨hq.le, ((mem_outstanding h.rows).mp hout).1⟩
  have hcounters := appends_counters h.rows happends hrows fun item hitem => (hmem item hitem).2
  apply counters_keepsFree h hcounters fun item hitem => (hmem item hitem).1
  intro r hr hres
  exact (planned_plannedReleases_le hpos hkeys r.id).trans
    (planned_outstanding_le h.rows h.within hr hres)

theorem applyReservations_sound (h : ReservationsSound db) (hb : db.build build.id = some b)
    (happly : applyReservations ctx db build project = .ok (n, db'))
    (hws : b.workspaceId = ctx.workspaceId) :
    ReservationsSound db' ∧ db'.builds = db.builds ∧
      (∀ id, id ≠ build.id → Freed db id → Freed db' id) ∧
      Settled (ReservedFor db ctx.workspaceId project build.quantity) db db' := by
  obtain ⟨rows, happends, hrows⟩ := applyReservations_rows happly
  have hentries : db'.stockEntries = db.stockEntries ++ rows := by rw [happends.eq]
  have hbuilds : db'.builds = db.builds := by rw [happends.eq]
  have hnodup : ((db.stockEntries ++ rows).map (·.id)).Nodup :=
    hentries ▸ happends.nodup_ids h.rows.nodup
  have hreserve : ∀ e ∈ rows, e.isReserve := fun e he => ⟨(hrows e he).status, (hrows e he).operation⟩
  refine ⟨?_, hbuilds, ?_, ?_⟩
  · constructor
    case rows =>
      rw [hentries]
      exact h.rows.append hnodup fun e he => Or.inl (hreserve e he)
    case within =>
      rw [hentries]
      exact h.within.append h.rows hnodup fun e he =>
        Or.inl ⟨hreserve e he, (hrows e he).positive⟩
    case owned =>
      intro r hr hres
      simp only [Db.build, hbuilds]
      rw [hentries] at hr
      rcases List.mem_append.mp hr with hr | hr
      · exact h.owned r hr hres
      · have hid := build_id hb
        refine ⟨b, ?_, ?_, ?_⟩
        · rw [← Db.build, hid]
          exact hb
        · rw [(hrows r hr).buildId, hid]
        · rw [(hrows r hr).workspace, hws]
  · intro id hne hfreed r hr hres hbuild
    rw [hentries] at hr ⊢
    rw [remainder_append fun e he => not_release_of (Or.inl (hreserve e he))]
    rcases List.mem_append.mp hr with hr | hr
    · exact hfreed r hr hres hbuild
    · have hid : some build.id = some id := (hrows r hr).buildId.symm.trans hbuild
      exact absurd (Option.some.inj hid).symm hne
  · intro r hr hres
    rcases applyReservations_parts happly r hr with hold | hnew
    · right
      rw [hentries, remainder_append fun e he => not_release_of (Or.inl (hreserve e he))]
      exact ⟨hold, id⟩
    · exact .inl hnew

end Services

section BuildWrites

variable {db : Db} {id : Uuid} {b row : Build} {f : Build → Build}

theorem updateBuild_sound (h : ReservationsSound db) (hb : db.build id = some b)
    (hf : ∀ r, r.id = id → (f r).id = id) (hws : (f b).workspaceId = b.workspaceId) :
    ReservationsSound (db.updateBuild id f) := by
  refine ⟨h.rows, h.within, ?_⟩
  intro r hr hres
  obtain ⟨owner, howner, hid, hrws⟩ := h.owned r hr hres
  obtain ⟨b', hb', hws'⟩ := build_kept hb hf hws howner
  have hid' : b'.id = owner.id := build_id hb'
  refine ⟨b', ?_, hid.trans (congrArg some hid'.symm), hrws.trans hws'.symm⟩
  rw [hid']
  exact hb'

theorem updateBuild_closedFreeBut {exempt : Option Uuid} (h : ClosedFreeBut exempt db)
    (hb : db.build id = some b) (hf : ∀ r, r.id = id → (f r).id = id)
    (hclosed : (f b).closed → b.closed ∨ Freed db id) :
    ClosedFreeBut exempt (db.updateBuild id f) := by
  intro k b' hb' hclosed' hne
  obtain ⟨rfl, rfl⟩ | ⟨_, hold⟩ := build_written hb hb' hf
  · obtain hwas | hfreed := hclosed hclosed'
    · exact h k b hb hwas hne
    · exact hfreed
  · exact h k b' hold hclosed' hne

theorem updateBuild_exempt (h : ClosedFree db) (hb : db.build id = some b)
    (hf : ∀ r, r.id = id → (f r).id = id) : ClosedFreeBut (some id) (db.updateBuild id f) := by
  intro k b' hb' hclosed' hne
  obtain ⟨rfl, _⟩ | ⟨_, hold⟩ := build_written hb hb' hf
  · exact absurd rfl hne
  · exact h k b' hold hclosed'

theorem updateBuild_closedFree (h : ClosedFree db) (hb : db.build id = some b)
    (hf : ∀ r, r.id = id → (f r).id = id) (hclosed : (f b).closed → b.closed ∨ Freed db id) :
    ClosedFree (db.updateBuild id f) :=
  fun k b' hb' hc => updateBuild_closedFreeBut (h.but none) hb hf hclosed k b' hb' hc (by simp)

theorem insertBuild_sound (h : ReservationsSound db) :
    ReservationsSound { db with builds := db.builds ++ [row] } := by
  refine ⟨h.rows, h.within, ?_⟩
  intro r hr hres
  obtain ⟨owner, howner, hid, hrws⟩ := h.owned r hr hres
  refine ⟨owner, ?_, hid, hrws⟩
  rw [build_append, howner, Option.some_or]

theorem insertBuild_closedFree (h : ClosedFree db) (hopen : ¬ row.closed) :
    ClosedFree { db with builds := db.builds ++ [row] } := by
  intro k b hb hclosed
  rw [build_append] at hb
  cases hold : db.build k with
  | some r =>
    rw [hold, Option.some_or] at hb
    obtain rfl := Option.some.inj hb
    exact h k r hold hclosed
  | none =>
    rw [hold, Option.none_or] at hb
    split at hb
    next =>
      obtain rfl := Option.some.inj hb
      exact absurd hclosed hopen
    next => cases hb

end BuildWrites

/-- Some consumable BOM line needs stock for `quantity` builds. -/
def RequiresSomething (db : Db) (workspaceId : Uuid) (project : Project) (quantity : ℤ) : Prop :=
  ∃ e ∈ consumableEntries db workspaceId project, ∃ part, e.partId.bind db.part = some part ∧
    0 < required e (some part) quantity

theorem applyReservations_nothing {ctx : Ctx} {build : Build}
    {n : ℕ} (h : applyReservations ctx db build project = .ok (n, db'))
    (hnone : ¬ RequiresSomething db ctx.workspaceId project build.quantity) : db' = db := by
  have hentries : ∀ (entries : List ProjectEntry) (c : Ctx) (d : Db) (k : ℕ),
      (∀ e ∈ entries, ∀ part, e.partId.bind d.part = some part →
        required e (some part) build.quantity ≤ 0) →
      reserveEntries c d build project ctx.utcnow entries = .ok (k, db') → db' = d := by
    intro entries
    induction entries with
    | nil =>
      intro c d k _ hok
      simp only [reserveEntries, Except.ok.injEq, Prod.mk.injEq] at hok
      exact hok.2.symm
    | cons e entries ih =>
      intro c d k hzero hok
      have hrow : reserveRow c d build project ctx.utcnow (c.child 0).uuid4 e = none := by
        unfold reserveRow
        split
        next => rfl
        next part hpart => simp [hzero e (List.mem_cons_self ..) part hpart]
      unfold reserveEntries at hok
      rw [hrow] at hok
      exact ih (c.child 1) d k (fun x hx => hzero x (List.mem_cons_of_mem _ hx)) hok
  refine hentries _ ctx db n ?_ h
  intro e he part hpart
  exact not_lt.mp fun hpos => hnone ⟨e, he, part, hpart, hpos⟩

/-- The status a patch leaves the build with. -/
def BuildPatchIn.statusOf (payload : BuildPatchIn) (b : Build) : BuildStatus :=
  match payload.status with
  | .set status => status
  | _ => b.status

theorem patchedBuild_ok {ctx : Ctx} {b b' : Build} {payload : BuildPatchIn}
    (h : patchedBuild ctx b payload = .ok b') :
    b'.id = b.id ∧ b'.workspaceId = b.workspaceId ∧ b'.projectId = b.projectId ∧
      b'.archivedAt = b.archivedAt ∧ b'.status = payload.statusOf b ∧
      payload.quantity ≠ .null ∧ ∀ q, payload.quantity = .set q → b'.quantity = q.1 := by
  simp only [patchedBuild, Outcome.bind_ok, Outcome.pure_ok] at h
  obtain ⟨name, _, quantity, hquantity, status, hstatus, rfl⟩ := h
  refine ⟨rfl, rfl, rfl, rfl, ?_, ?_, ?_⟩
  · cases hpatch : payload.status with
    | unset =>
      rw [hpatch] at hstatus
      simp only [BuildPatchIn.statusOf, hpatch]
      exact (Except.ok.inj hstatus).symm
    | null =>
      rw [hpatch] at hstatus
      cases hstatus
    | set value =>
      rw [hpatch] at hstatus
      simp only [BuildPatchIn.statusOf, hpatch]
      exact (Except.ok.inj hstatus).symm
  · intro hnull
    rw [hnull] at hquantity
    cases hquantity
  · intro q hq
    rw [hq] at hquantity
    rw [← Except.ok.inj hquantity]

/-- A patch does not complete by hand a build that still holds reservations, and
does not change the quantity of an archived build that stays open and needs stock. -/
def PatchFrees (call : Call) (db : Db) : Prop :=
  match call.request with
  | .patchBuild id payload => ∀ b, db.build id = some b →
      (payload.status = .set .complete → Freed db id) ∧
      (b.archivedAt ≠ none → b.status.isOpen → (payload.statusOf b).isOpen →
        ∀ q, payload.quantity = .set q → q.1 ≠ b.quantity →
          ∀ project, db.project b.projectId = some project →
            ¬ RequiresSomething db call.ctx.workspaceId project q.1)
  | _ => True

/-- A request that reserves `quantity` builds of a project. -/
def Reserving (call : Call) (db : Db) (project : Project) (quantity : ℤ) : Prop :=
  match call.request with
  | .createBuild payload =>
    db.project payload.projectId = some project ∧ quantity = payload.quantity
  | .patchBuild id payload => ∃ b q, db.build id = some b ∧
      db.project b.projectId = some project ∧ payload.quantity = .set q ∧ quantity = q.1 ∧
      quantity ≠ b.quantity ∧ b.status.isOpen ∧ (payload.statusOf b).isOpen
  | _ => False

def Reserves (call : Call) (db : Db) (r : StockEntry) : Prop :=
  ∃ project quantity, Reserving call db project quantity ∧
    ReservedFor db call.ctx.workspaceId project quantity r

/-- What every route keeps: the reserved rows sound, closed builds free, and spent rows spent. -/
structure KeepsReservations (new : StockEntry → Prop) (db db' : Db) : Prop where
  sound : ReservationsSound db'
  closedFree : ClosedFree db → ClosedFree db'
  settled : Settled new db db'

section Routes

variable {ctx : Ctx} {db db' : Db} {buildId : Uuid} {build : Build}

theorem KeepsFree.kept (h : KeepsFree db db') : KeepsReservations Nothing db db' :=
  ⟨h.sound, h.closedFree, h.settled⟩

theorem createBuild_kept {payload : BuildCreateIn} (h : ReservationsSound db)
    (hcreate : createBuild ctx db payload = .ok (build, db')) :
    KeepsReservations (Reserves ⟨ctx, .createBuild payload⟩ db) db db' := by
  simp only [createBuild, Outcome.bind_ok, Outcome.pure_ok, insertBuild_ok, Prod.mk.injEq]
    at hcreate
  obtain ⟨project, hproject, _, ⟨hfresh, rfl⟩, ⟨n, db₂⟩, happly, rfl, rfl⟩ := hcreate
  have hopen : ¬ (newBuild ctx payload project).closed := by simp [newBuild, Build.closed]
  have hnone : db.build (newBuild ctx payload project).id = none := by
    rw [Db.build, List.find?_eq_none]
    intro r hr
    simpa using hfresh r hr
  have hrow : ({ db with builds := db.builds ++ [newBuild ctx payload project] } : Db).build
      (newBuild ctx payload project).id = some (newBuild ctx payload project) := by
    rw [build_append, if_pos rfl, hnone, Option.none_or]
  obtain ⟨hsound, hbuilds, hfreed, hsettled⟩ :=
    applyReservations_sound (insertBuild_sound h) hrow happly rfl
  refine ⟨hsound, fun hfree => ?_, hsettled.imp fun r hr => ?_⟩
  case refine_2 => exact ⟨project, _, ⟨(getProject_ok.mp hproject).1, rfl⟩, hr⟩
  have hinserted := insertBuild_closedFree hfree hopen
  intro id b hb hclosed
  have hold : ({ db with builds := db.builds ++ [newBuild ctx payload project] } : Db).build id =
      some b := by
    rw [Db.build, hbuilds] at hb
    exact hb
  refine hfreed id ?_ (hinserted id b hold hclosed)
  rintro rfl
  obtain rfl := Option.some.inj (hrow.symm.trans hold)
  exact hopen hclosed

theorem archiveBuild_kept (h : ReservationsSound db)
    (harchive : archiveBuild ctx db buildId = .ok db') : KeepsReservations Nothing db db' := by
  simp only [archiveBuild, Outcome.bind_ok, Outcome.pure_ok] at harchive
  obtain ⟨b, hadmin, ⟨n, db₁⟩, hrelease, rfl⟩ := harchive
  obtain ⟨hb, hws⟩ := requireAdmin_ok hadmin
  have hid : b.id = buildId := build_id hb
  subst hid
  obtain ⟨hkeeps, hfreed⟩ := releaseReservations_keepsFree h hb hrelease hws
  have hb₁ : db₁.build b.id = some b := (hkeeps.build b.id).trans hb
  exact ⟨updateBuild_sound hkeeps.sound hb₁ (fun _ hr => hr) rfl, fun hfree =>
    updateBuild_closedFree (hkeeps.closedFree hfree) hb₁ (fun _ hr => hr) fun _ => Or.inr hfreed,
    hkeeps.settled⟩

theorem restoreBuild_kept (h : ReservationsSound db)
    (hrestore : restoreBuild ctx db buildId = .ok db') : KeepsReservations Nothing db db' := by
  simp only [restoreBuild, Outcome.bind_ok, Outcome.pure_ok] at hrestore
  obtain ⟨b, hadmin, rfl⟩ := hrestore
  obtain ⟨hb, _⟩ := requireAdmin_ok hadmin
  have hid : b.id = buildId := build_id hb
  subst hid
  refine ⟨updateBuild_sound h hb (fun _ hr => hr) rfl, fun hfree =>
    updateBuild_closedFree hfree hb (fun _ hr => hr) fun hclosed => Or.inl ?_, settled_same rfl⟩
  rcases hclosed with hcomplete | hcancelled | harch
  · exact Or.inl hcomplete
  · exact Or.inr (Or.inl hcancelled)
  · exact absurd rfl harch

theorem consume_kept {result : ConsumeResult}
    (h : ReservationsSound db) (hb : db.build build.id = some build)
    (hws : build.workspaceId = ctx.workspaceId)
    (hconsume : consume ctx db build project payload = .ok (result, db')) :
    KeepsReservations Nothing db db' := by
  simp only [consume, Outcome.bind_ok, Outcome.check_ok, exists_const, Outcome.pure_ok,
    Prod.mk.injEq] at hconsume
  obtain ⟨_, ⟨n, db₁⟩, hrelease, ⟨rows, db₂⟩, hlines, ⟨output, db₃⟩, houtput, _, rfl⟩ := hconsume
  obtain ⟨hkeeps, hfreed⟩ := releaseReservations_keepsFree h hb hrelease hws
  have hlinesKeep := stockChain_keepsFree hkeeps.sound (applyConsumeLines_chain hlines)
  have houtKeep := stockChain_keepsFree hlinesKeep.sound (produceOutput_chain houtput)
  have hb₃ : db₃.build build.id = some build := by
    rw [houtKeep.build, hlinesKeep.build, hkeeps.build, hb]
  refine ⟨updateBuild_sound houtKeep.sound hb₃ (fun _ hr => hr) rfl, fun hfree => ?_,
    hkeeps.settled.trans (hlinesKeep.settled.trans houtKeep.settled)⟩
  have hfree₃ := houtKeep.closedFree (hlinesKeep.closedFree (hkeeps.closedFree hfree))
  exact updateBuild_closedFree hfree₃ hb₃ (fun _ hr => hr)
    fun _ => Or.inr (houtKeep.freed _ (hlinesKeep.freed _ hfreed))

theorem finishBuild_kept {now : Timestamp}
    {output : Option (Lot × StockEntry)} {b : Build} (h : ReservationsSound db)
    (hb : db.build build.id = some b)
    (hfinish : finishBuild ctx db build project payload now = .ok (output, db'))
    (hws : b.workspaceId = ctx.workspaceId) :
    KeepsReservations Nothing db db' := by
  simp only [finishBuild, Outcome.bind_ok, Outcome.pure_ok, Prod.mk.injEq] at hfinish
  obtain ⟨⟨out, db₁⟩, houtput, ⟨n, db₂⟩, hrelease, _, rfl⟩ := hfinish
  have houtKeep := stockChain_keepsFree h (produceOutput_chain houtput)
  have hb₁ : db₁.build build.id = some b := (houtKeep.build _).trans hb
  have hsound : ReservationsSound (completeBuild ctx db₁ build (out.map Prod.fst) now) :=
    updateBuild_sound houtKeep.sound hb₁ (fun _ hr => hr) rfl
  have hcompleted : ∃ b', (completeBuild ctx db₁ build (out.map Prod.fst) now).build build.id =
      some b' ∧ b'.workspaceId = b.workspaceId := build_kept hb₁ (fun _ hr => hr) rfl hb₁
  obtain ⟨b', hb', hws'⟩ := hcompleted
  obtain ⟨hkeeps, hfreed⟩ := releaseReservations_keepsFree hsound hb' hrelease (hws'.trans hws)
  refine ⟨hkeeps.sound, fun hfree => ?_, houtKeep.settled.trans hkeeps.settled⟩
  have hbut : ClosedFreeBut (some build.id)
      (completeBuild ctx db₁ build (out.map Prod.fst) now) :=
    updateBuild_exempt (houtKeep.closedFree hfree) hb₁ fun _ hr => hr
  exact (hkeeps.closedFreeBut hbut).all hfreed

theorem consumeStage_kept {stage : BuildStage}
    {result : StageConsumeResult} (h : ReservationsSound db) (hb : db.build build.id = some build)
    (hs : db.buildStage stage.id = some stage) (hws : build.workspaceId = ctx.workspaceId)
    (hconsume : consumeStage ctx db build project stage payload = .ok (result, db')) :
    KeepsReservations Nothing db db' := by
  have hok := consumeStage_ok hb hs hconsume
  obtain ⟨n, db₁, rows, db₂, hrelease, hlines, hrest⟩ := hok.states
  have hkeys : (Dict.keys (releaseAmounts (projectEntriesById db ctx.workspaceId project)
      (requiredOfStage db ctx.workspaceId build project stage.id))).Nodup :=
    Dict.nodup_keys_collect (d := []) List.nodup_nil _
  have hkeeps := releaseReservationAmounts_keepsFree h hkeys hrelease
  have hlinesKeep := stockChain_keepsFree hkeeps.sound (applyConsumeLines_chain hlines)
  have hb₂ : db₂.build build.id = some build := by rw [hlinesKeep.build, hkeeps.build, hb]
  -- Drawing the lines moves the status to `in_progress` at most.
  have hmarked : KeepsReservations Nothing db (markStageConsumed ctx db₂ build stage ctx.utcnow) := by
    have hstage : ReservationsSound (db₂.updateBuildStage stage.id (consumedStage ctx ctx.utcnow)) :=
      ⟨hlinesKeep.sound.rows, hlinesKeep.sound.within, hlinesKeep.sound.owned⟩
    refine ⟨updateBuild_sound hstage hb₂ (fun _ hr => hr) rfl, fun hfree => ?_,
      hkeeps.settled.trans hlinesKeep.settled⟩
    have hfree₂ : ClosedFree (db₂.updateBuildStage stage.id (consumedStage ctx ctx.utcnow)) :=
      hlinesKeep.closedFree (hkeeps.closedFree hfree)
    refine updateBuild_closedFree hfree₂ hb₂ (fun _ hr => hr) fun hclosed => Or.inl ?_
    rcases hclosed with hstatus | hstatus | harch
    · simp only [startedBuild] at hstatus
      split at hstatus
      next => cases hstatus
      next => exact Or.inl hstatus
    · simp only [startedBuild] at hstatus
      split at hstatus
      next => cases hstatus
      next => exact Or.inr (Or.inl hstatus)
    · exact Or.inr (Or.inr harch)
  split at hrest
  next =>
    obtain ⟨output, hfinish⟩ := hrest
    have hbuild : ∃ b', (markStageConsumed ctx db₂ build stage ctx.utcnow).build build.id =
        some b' ∧ b'.workspaceId = build.workspaceId :=
      build_kept hb₂ (fun _ hr => hr) rfl hb₂
    obtain ⟨b', hb', hws'⟩ := hbuild
    have hfinished := finishBuild_kept hmarked.sound hb' hfinish (hws'.trans hws)
    exact ⟨hfinished.sound, fun hfree => hfinished.closedFree (hmarked.closedFree hfree),
      hmarked.settled.trans hfinished.settled⟩
  next => exact hrest ▸ hmarked

theorem patchBuild_kept {payload : BuildPatchIn} (h : ReservationsSound db)
    (hpatch : patchBuild ctx db buildId payload = .ok (build, db')) : ReservationsSound db' ∧
      (PatchFrees ⟨ctx, .patchBuild buildId payload⟩ db → ClosedFree db → ClosedFree db') ∧
      Settled (Reserves ⟨ctx, .patchBuild buildId payload⟩ db) db db' := by
  simp only [patchBuild, Outcome.bind_ok, getBuild_ok] at hpatch
  obtain ⟨old, ⟨hold, hws⟩, _, _, _, _, b, hb, hrest⟩ := hpatch
  obtain ⟨hid, hbws, hproject, harch, hstatus, hnull, hquantity⟩ := patchedBuild_ok hb
  have holdId : old.id = buildId := build_id hold
  subst holdId
  rw [hid] at hrest
  have hf : ∀ r : Build, r.id = old.id → b.id = old.id := fun _ _ => hid
  have hsound : ReservationsSound (db.updateBuild old.id fun _ => b) :=
    updateBuild_sound h hold hf hbws
  have hrow : (db.updateBuild old.id fun _ => b).build b.id = some b := by
    rw [build_update hf, hid, hold]
    simp
  split at hrest
  next hcancel =>
    simp only [Outcome.bind_ok, Outcome.pure_ok, Prod.mk.injEq] at hrest
    obtain ⟨⟨n, db₁⟩, hrelease, _, rfl⟩ := hrest
    obtain ⟨hkeeps, hfreed⟩ := releaseReservations_keepsFree hsound hrow hrelease (hbws.trans hws)
    refine ⟨hkeeps.sound, fun _ hfree => ?_, hkeeps.settled.imp fun _ => False.elim⟩
    exact (hkeeps.closedFreeBut (updateBuild_exempt hfree hold hf)).all (hid ▸ hfreed)
  next hnocancel =>
    split at hrest
    next hreapply =>
      simp only [Outcome.bind_ok, Outcome.pure_ok, Prod.mk.injEq, getProject_ok] at hrest
      obtain ⟨project, ⟨hproj, _⟩, ⟨n, db₁⟩, hrelease, ⟨m, db₂⟩, happly, _, rfl⟩ := hrest
      obtain ⟨hkeeps, hfreed⟩ := releaseReservations_keepsFree hsound hrow hrelease (hbws.trans hws)
      have hrow₁ : db₁.build b.id = some b := (hkeeps.build _).trans hrow
      obtain ⟨hsound₂, hbuilds₂, hfreed₂, hsettled₂⟩ :=
        applyReservations_sound hkeeps.sound hrow₁ happly (hbws.trans hws)
      have hchanged : ∃ q, payload.quantity = .set q ∧ b.quantity = q.1 ∧
          b.quantity ≠ old.quantity := by
        cases hq : payload.quantity with
        | unset => exact absurd hq hreapply.1.1
        | null => exact absurd hq hnull
        | set q =>
          refine ⟨q, rfl, hquantity q hq, ?_⟩
          rw [hquantity q hq]
          intro heq
          exact hreapply.1.2 (hq.trans (congrArg Patch.set (Subtype.ext heq)))
      obtain ⟨q, hq, hbq, hne⟩ := hchanged
      have hreserved : ∀ r, ReservedFor db₁ (ctx.child 1).workspaceId project b.quantity r →
          Reserves ⟨ctx, .patchBuild old.id payload⟩ db r := by
        obtain ⟨_, happends, _⟩ := releaseReservations_rows hrelease
        rw [happends.eq]
        intro r hr
        exact ⟨project, b.quantity, ⟨old, q, hold, hproject ▸ hproj, hq, hbq, hne, hreapply.2.1,
          hstatus ▸ hreapply.2.2⟩, hr⟩
      refine ⟨hsound₂, fun hcond hfree => ?_,
        (hkeeps.settled.imp fun _ => False.elim).trans (hsettled₂.imp hreserved)⟩
      obtain ⟨_, harchived⟩ := hcond old hold
      intro k bk hbk hclosed
      simp only [Db.build, hbuilds₂] at hbk
      by_cases hk : k = b.id
      · -- The patched build is open, so it is closed only when it is archived.
        subst hk
        obtain rfl := Option.some.inj (hrow₁.symm.trans hbk)
        have harchivedOld : old.archivedAt ≠ none := by
          rcases hclosed with hc | hc | hc
          · rw [hc] at hreapply
            exact absurd hreapply.2.2 (by decide)
          · rw [hc] at hreapply
            exact absurd hreapply.2.2 (by decide)
          · exact harch ▸ hc
        have hnothing : ¬ RequiresSomething db₁ ctx.workspaceId project b.quantity := by
          obtain ⟨_, happends, _⟩ := releaseReservations_rows hrelease
          rw [happends.eq, hbq]
          exact harchived harchivedOld hreapply.2.1 (hstatus ▸ hreapply.2.2) q hq (hbq ▸ hne)
            project (hproject ▸ hproj)
        rw [applyReservations_nothing happly hnothing]
        exact hfreed
      · have hold' := hkeeps.closedFreeBut (updateBuild_exempt hfree hold hf) k bk hbk hclosed
          (fun heq => hk ((Option.some.inj heq).trans hid.symm))
        exact hfreed₂ k hk hold'
    next hnoreapply =>
      simp only [Outcome.pure_ok, Prod.mk.injEq] at hrest
      obtain ⟨_, rfl⟩ := hrest
      refine ⟨hsound, fun hcond hfree => ?_, settled_same rfl⟩
      obtain ⟨hcomplete, _⟩ := hcond old hold
      refine updateBuild_closedFree hfree hold hf fun hclosed => ?_
      rw [Build.closed, harch, hstatus] at hclosed
      cases hpatched : payload.status with
      | unset =>
        simp only [BuildPatchIn.statusOf, hpatched] at hclosed
        exact Or.inl hclosed
      | null =>
        simp only [BuildPatchIn.statusOf, hpatched] at hclosed
        exact Or.inl hclosed
      | set status =>
        simp only [BuildPatchIn.statusOf, hpatched] at hclosed
        rcases hclosed with rfl | rfl | harchived'
        · exact Or.inr (hcomplete hpatched)
        · left
          right
          left
          by_contra hne
          exact hnocancel ⟨hpatched, hne⟩
        · exact Or.inl (Or.inr (Or.inr harchived'))

end Routes

theorem exec_reservationsKept {call : Call} (h : ReservationsSound db)
    (hexec : exec call db = .ok db') :
    ReservationsSound db' ∧ (PatchFrees call db → ClosedFree db → ClosedFree db') ∧
      Settled (Reserves call db) db db' := by
  have hkept (hkeeps : KeepsReservations Nothing db db') :
      ReservationsSound db' ∧ (PatchFrees call db → ClosedFree db → ClosedFree db') ∧
        Settled (Reserves call db) db db' :=
    ⟨hkeeps.sound, fun _ => hkeeps.closedFree, hkeeps.settled.imp fun _ => False.elim⟩
  by_cases hstock : call.request.isStock
  · have hchain := stockRequest_chain hstock (adjustMeets_true call db) hexec
    exact hkept (stockChain_keepsFree h hchain).kept
  obtain ⟨ctx, request⟩ := call
  cases request with
  | createBuild payload =>
    obtain ⟨⟨build, _⟩, hop, rfl⟩ := Outcome.map_ok.mp hexec
    have hkeeps := createBuild_kept h hop
    exact ⟨hkeeps.sound, fun _ => hkeeps.closedFree, hkeeps.settled⟩
  | patchBuild buildId payload =>
    obtain ⟨⟨build, _⟩, hop, rfl⟩ := Outcome.map_ok.mp hexec
    exact patchBuild_kept h hop
  | archiveBuild buildId => exact hkept (archiveBuild_kept h hexec)
  | restoreBuild buildId => exact hkept (restoreBuild_kept h hexec)
  | consumeBuild buildId payload =>
    obtain ⟨⟨result, _⟩, hop, rfl⟩ := Outcome.map_ok.mp hexec
    simp only [consumeBuild, Outcome.bind_ok, Outcome.mapError_ok, getBuild_ok] at hop
    obtain ⟨build, ⟨hb, hws⟩, _, _, _, _, hconsume⟩ := hop
    have hid : build.id = buildId := build_id hb
    subst hid
    exact hkept (consume_kept h hb hws hconsume)
  | createBuildStage buildId payload =>
    obtain ⟨⟨stage, _⟩, hop, rfl⟩ := Outcome.map_ok.mp hexec
    simp only [createBuildStage, Outcome.bind_ok, Outcome.mapError_ok] at hop
    obtain ⟨_, _, _, _, hcreate⟩ := hop
    obtain ⟨rows, rfl, _⟩ := (createStage_ok hcreate).rows
    exact hkept ⟨⟨h.rows, h.within, h.owned⟩, fun hfree => hfree, settled_same rfl⟩
  | consumeBuildStage buildId stageId payload =>
    obtain ⟨⟨result, _⟩, hop, rfl⟩ := Outcome.map_ok.mp hexec
    simp only [consumeBuildStage, Outcome.bind_ok, Outcome.mapError_ok, getBuild_ok,
      getStage_ok] at hop
    obtain ⟨build, ⟨hb, hws⟩, _, _, stage, ⟨hs, _⟩, hconsume⟩ := hop
    have hid : build.id = buildId := build_id hb
    subst hid
    have hsid : stage.id = stageId := buildStage_id hs
    subst hsid
    exact hkept (consumeStage_kept h hb hs hws hconsume)
  | ledger | receiveOrder | buildKit | buildStageKit | createStorage | patchStorage
  | archiveStorage | restoreStorage | editCatalogue => exact absurd trivial hstock

theorem reservationsSound_empty (hempty : db.stockEntries = []) :
    ReservationsSound db := by
  have hnone : ∀ r, r ∉ db.stockEntries := by simp [hempty]
  refine ⟨⟨by simp [hempty], ?_, ?_⟩, ?_, ?_⟩
  · exact fun e he => absurd he (hnone e)
  · exact fun e he => absurd he (hnone e)
  · exact fun r hr => absurd hr (hnone r)
  · exact fun r hr => absurd hr (hnone r)

theorem reservationsSound_of_run {db₀ : Db} (hempty : db₀.stockEntries = []) (calls : List Call) :
    ReservationsSound (runCalls db₀ calls) :=
  Outcome.run_invariant (fun _ _ _ h hexec => (exec_reservationsKept h hexec).1)
    calls (reservationsSound_empty hempty)

/-- In a run whose patches free what they close, a closed build holds nothing. -/
theorem closedBuild_holdsNothing {db₀ : Db} (hempty : db₀.stockEntries = []) {calls : List Call}
    (hmeets : Outcome.Meets exec (Outcome.Accepted exec PatchFrees) db₀ calls) :
    ClosedFree (runCalls db₀ calls) := by
  have hstart : ReservationsSound db₀ ∧ ClosedFree db₀ :=
    ⟨reservationsSound_empty hempty, fun _ _ _ _ r hr => by simp [hempty] at hr⟩
  have hstep : ∀ call db db', ReservationsSound db ∧ ClosedFree db → PatchFrees call db →
      exec call db = .ok db' → ReservationsSound db' ∧ ClosedFree db' := by
    intro call db db' h hcond hexec
    obtain ⟨hsound, hfree, _⟩ := exec_reservationsKept h.1 hexec
    exact ⟨hsound, hfree hcond h.2⟩
  exact (Outcome.run_invariant_of_accepted hstep hstart hmeets).2

/-- A build of three asks for six bolts; its quantity is patched to five, then it is archived. -/
theorem closedBuild_holdsNothing_sample :
    ClosedFree (runCalls (sampleProjectDb 2) [⟨sampleCtx 100, sampleBuild 3 (by decide)⟩,
      ⟨sampleCtx 200, .patchBuild 100 ⟨.unset, .set ⟨5, by decide⟩, .unset, .unset⟩⟩,
      ⟨sampleCtx 300, .archiveBuild 100⟩]) := by
  refine closedBuild_holdsNothing rfl ⟨fun _ => trivial, ?_, fun _ => trivial, trivial⟩
  intro _ b hb
  have hactive : ((runCalls (sampleProjectDb 2)
      [⟨sampleCtx 100, sampleBuild 3 (by decide)⟩]).build 100).bind (·.archivedAt) = none := by
    decide +kernel
  constructor
  · intro hcomplete
    cases hcomplete
  · intro harch
    exact absurd (Option.bind_eq_none_iff.mp hactive b hb) harch

/-- The same build is patched to `complete` by hand: its reserve row keeps its six bolts. -/
theorem patchBuild_leaks_reservation :
    ¬ ∀ (db₀ : Db) (calls : List Call), db₀.stockEntries = [] →
      ClosedFree (runCalls db₀ calls) := by
  intro h
  have hfree := h (sampleProjectDb 2) [⟨sampleCtx 100, sampleBuild 3 (by decide)⟩,
    ⟨sampleCtx 200, .patchBuild 100 ⟨.unset, .unset, .set .complete, .unset⟩⟩] rfl 100
  have hcomplete : ((runCalls (sampleProjectDb 2) [⟨sampleCtx 100, sampleBuild 3 (by decide)⟩,
      ⟨sampleCtx 200, .patchBuild 100 ⟨.unset, .unset, .set .complete, .unset⟩⟩]).build 100).map
        (·.status) = some .complete := by
    decide +kernel
  have hleft : ∃ r ∈ (runCalls (sampleProjectDb 2) [⟨sampleCtx 100, sampleBuild 3 (by decide)⟩,
      ⟨sampleCtx 200, .patchBuild 100 ⟨.unset, .unset, .set .complete, .unset⟩⟩]).stockEntries,
      r.isReserve ∧ r.buildId = some 100 ∧ remainder (runCalls (sampleProjectDb 2)
        [⟨sampleCtx 100, sampleBuild 3 (by decide)⟩, ⟨sampleCtx 200,
          .patchBuild 100 ⟨.unset, .unset, .set .complete, .unset⟩⟩]).stockEntries r = 6 := by
    decide +kernel
  obtain ⟨b, hb, hstatus⟩ := Option.map_eq_some_iff.mp hcomplete
  obtain ⟨r, hr, hres, hbuild, hrem⟩ := hleft
  have hzero := hfree b hb (Or.inl hstatus) r hr hres hbuild
  rw [hrem] at hzero
  exact absurd hzero (by decide)

end StockManager
