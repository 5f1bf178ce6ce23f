import StockManager.Effects.StageOrder
import StockManager.Properties.Locations

/-! # Rows that other rows refer to

In every reachable state the stock lies at locations and in lots of its own
workspace, and the stage tables keep what their keys promise. -/

namespace StockManager

/-- Every on-hand row that names a lot names one of its own workspace. -/
def LotsExist (db : Db) : Prop :=
  ∀ e ∈ db.stockEntries, e.status = .onHand → ∀ id ∈ e.lotId,
    ∃ lot, db.lot id = some lot ∧ lot.workspaceId = e.workspaceId

theorem LotsExist.append {db db' : Db} (rows : List StockEntry) (lots : List Lot)
    (h : LotsExist db) (hlots : db'.lots = db.lots ++ lots)
    (hrows : db'.stockEntries = db.stockEntries ++ rows)
    (hnew : ∀ e ∈ rows, e.status = .onHand → ∀ id ∈ e.lotId,
      ∃ lot, db'.lot id = some lot ∧ lot.workspaceId = e.workspaceId) : LotsExist db' := by
  intro e he hstatus id hid
  rw [hrows] at he
  rcases List.mem_append.mp he with he | he
  · obtain ⟨lot, hlot, hws⟩ := h e he hstatus id hid
    refine ⟨lot, ?_, hws⟩
    rw [Db.lot, hlots]
    exact lot_append hlot
  · exact hnew e he hstatus id hid

theorem LotsExist.same {db db' : Db} (h : LotsExist db) (hsame : SameLedger db db') :
    LotsExist db' := by
  refine h.append [] [] (by simp [hsame.lots]) (by simp [hsame.stockEntries]) ?_
  intro r hr
  cases hr

theorem stockStep_lotsExist {Recount : Db → Bucket → Decimal → Prop} {db db' : Db}
    (hstep : StockStep Recount db db') (h : LotsExist db) : LotsExist db' := by
  have hnamed : ∀ {b : Bucket} {e : StockEntry}, e.bucket = b →
      RefsIn db b.workspaceId b.storageLocationId b.lotId →
      ∀ r ∈ [e], r.status = .onHand → ∀ id ∈ r.lotId,
        ∃ lot, db.lot id = some lot ∧ lot.workspaceId = r.workspaceId := by
    rintro b e rfl hrefs r hr _ id hid
    obtain rfl := List.mem_singleton.mp hr
    exact hrefs.lot id hid
  cases hstep with
  | produced hrow hpos =>
    refine h.append _ _ rfl rfl ?_
    intro r hr _ id hid
    obtain rfl := List.mem_singleton.mp hr
    have hbucket := hrow.bucket
    simp only [StockEntry.bucket, Bucket.mk.injEq] at hbucket
    obtain ⟨hws, _, hlot, _⟩ := hbucket
    obtain rfl | ⟨lot, rfl, hfresh⟩ := hrow.lots
    · simp [hlot] at hid
    · have hidlot : lot.id = id := by simpa [hlot] using hid
      subst hidlot
      exact ⟨lot, hfresh.found rfl, hfresh.workspace.trans hws.symm⟩
  | drawn hrow hpos => exact h.append _ [] (by simp) rfl (hnamed hrow.bucket hrow.refs)
  | moved hpair hpos =>
    have hin := hpair.inBucket
    have hout := hpair.outBucket
    simp only [StockEntry.bucket, Bucket.mk.injEq] at hin hout
    refine h.append _ _ rfl rfl ?_
    intro r hr _ id hid
    rcases List.mem_cons.mp hr with rfl | hr
    · rw [hout.2.2.1] at hid
      obtain ⟨lot, hlot, hws⟩ := hpair.refs.lot id hid
      exact ⟨lot, lot_append hlot, hws.trans hout.1.symm⟩
    · obtain rfl := List.mem_singleton.mp hr
      rw [hin.2.2.1] at hid
      rw [hin.1]
      obtain rfl | ⟨lot, rfl, hfresh⟩ := hpair.lots
      · -- The destination keeps the source lot.
        rw [if_pos rfl] at hid
        obtain ⟨lot, hlot, hws⟩ := hpair.refs.lot id hid
        exact ⟨lot, lot_append hlot, hws⟩
      · have hidlot : lot.id = id := by simpa using hid
        subst hidlot
        exact ⟨lot, hfresh.found rfl, hfresh.workspace⟩
  | recounted hrow _ _ _ => exact h.append _ [] (by simp) rfl (hnamed hrow.bucket hrow.refs)
  | patched => exact h
  | archived => exact h
  | restored => exact h
  | created => exact h
  | elsewhere hsame _ => exact h.same hsame

theorem ledgerStep_lotsExist {Recount : Db → Bucket → Decimal → Prop} {db db' : Db}
    (hstep : LedgerStep Recount db db') (h : LotsExist db) : LotsExist db' := by
  cases hstep with
  | stock hstock => exact stockStep_lotsExist hstock h
  | noted happends hrows =>
    refine h.append _ [] (by simp [happends.eq]) (by rw [happends.eq]) ?_
    intro r hr _ id hid
    rw [(hrows r hr).2] at hid
    cases hid
  | builds hsame => exact h.same hsame

theorem refsIn_of_balance {db : Db} (hlocated : StockLocated db) (hlots : LotsExist db)
    {b : Bucket} (hne : balance db.stockEntries b ≠ 0) :
    RefsIn db b.workspaceId b.storageLocationId b.lotId := by
  by_contra hbad
  apply hne
  apply Tally.tally_eq_zero
  rintro e he ⟨hstatus, rfl⟩
  exact hbad ⟨hlocated e he hstatus, hlots e he hstatus⟩

section Stages

variable {ctx : Ctx} {db db' : Db} {build : Build}

theorem WellStaged.same (h : WellStaged db) (hstages : db'.buildStages = db.buildStages)
    (hlines : db'.buildStageLines = db.buildStageLines) : WellStaged db' := by
  constructor
  case ids => exact hstages ▸ h.ids
  case sequences => exact hstages ▸ h.sequences
  case lines =>
    rw [LinesDistinct, hlines]
    exact h.lines
  case stages =>
    rw [hlines, hstages]
    exact h.stages

def SameStages (db db' : Db) : Prop :=
  db'.buildStages = db.buildStages ∧ db'.buildStageLines = db.buildStageLines

theorem SameStages.trans {a b c : Db} (h : SameStages a b) (k : SameStages b c) :
    SameStages a c := ⟨k.1.trans h.1, k.2.trans h.2⟩

theorem SameBuilds.sameStages (h : SameBuilds db db') : SameStages db db' :=
  ⟨h.buildStages, h.buildStageLines⟩

theorem releaseReservations_sameStages {n : ℕ}
    (h : releaseReservations ctx db build = .ok (n, db')) : SameStages db db' := by
  obtain ⟨rows, happends, _⟩ := releaseReservations_rows h
  exact happends.sameBuilds.sameStages

theorem applyReservations_sameStages {project : Project} {n : ℕ}
    (h : applyReservations ctx db build project = .ok (n, db')) : SameStages db db' := by
  obtain ⟨rows, happends, _⟩ := applyReservations_rows h
  exact happends.sameBuilds.sameStages

theorem createBuild_sameStages {payload : BuildCreateIn}
    (h : createBuild ctx db payload = .ok (build, db')) : SameStages db db' := by
  simp only [createBuild, Outcome.bind_ok, Outcome.pure_ok, insertBuild_ok, Prod.mk.injEq] at h
  obtain ⟨_, _, _, ⟨_, rfl⟩, ⟨n, db₁⟩, happly, _, rfl⟩ := h
  have hsame := applyReservations_sameStages happly
  exact hsame

theorem patchBuild_sameStages {buildId : Uuid} {payload : BuildPatchIn}
    (h : patchBuild ctx db buildId payload = .ok (build, db')) : SameStages db db' := by
  simp only [patchBuild, Outcome.bind_ok] at h
  obtain ⟨old, _, _, _, _, _, b, _, hrest⟩ := h
  have hset : SameStages db (db.updateBuild b.id fun _ => b) := ⟨rfl, rfl⟩
  split at hrest
  next =>
    simp only [Outcome.bind_ok, Outcome.pure_ok, Prod.mk.injEq] at hrest
    obtain ⟨⟨n, db₁⟩, hrelease, _, rfl⟩ := hrest
    exact hset.trans (releaseReservations_sameStages hrelease)
  next =>
    split at hrest
    next =>
      simp only [Outcome.bind_ok, Outcome.pure_ok, Prod.mk.injEq] at hrest
      obtain ⟨_, _, ⟨n, db₁⟩, hrelease, ⟨m, db₂⟩, happly, _, rfl⟩ := hrest
      exact (hset.trans (releaseReservations_sameStages hrelease)).trans
        (applyReservations_sameStages happly)
    next =>
      simp only [Outcome.pure_ok, Prod.mk.injEq] at hrest
      exact hrest.2 ▸ hset

theorem consume_sameStages {project : Project} {payload : ConsumeIn} {result : ConsumeResult}
    (h : consume ctx db build project payload = .ok (result, db')) : SameStages db db' := by
  simp only [consume, Outcome.bind_ok, Outcome.check_ok, exists_const, Outcome.pure_ok,
    Prod.mk.injEq] at h
  obtain ⟨_, ⟨n, db₁⟩, hrelease, ⟨rows, db₂⟩, hlines, ⟨output, db₃⟩, houtput, _, rfl⟩ := h
  have hdrawn := (consumeLines_rows (applyConsumeLines_ok hlines)).1.sameBuilds.sameStages
  have hproduced := (produceOutput_same houtput).2.sameStages
  have hsame := ((releaseReservations_sameStages hrelease).trans hdrawn).trans hproduced
  exact hsame

theorem exec_wellStaged {call : Call} (h : WellStaged db) (hexec : exec call db = .ok db') :
    WellStaged db' := by
  have hsame : SameStages db db' → WellStaged db' := fun hsame => h.same hsame.1 hsame.2
  by_cases hstock : call.request.isStock
  · have hchain := stockRequest_chain hstock (adjustMeets_true call db) hexec
    exact hsame (stockChain_onHandOnly hchain).builds.sameStages
  obtain ⟨ctx, request⟩ := call
  cases request with
  | createBuild payload =>
    obtain ⟨⟨build, _⟩, hop, rfl⟩ := Outcome.map_ok.mp hexec
    exact hsame (createBuild_sameStages hop)
  | patchBuild buildId payload =>
    obtain ⟨⟨build, _⟩, hop, rfl⟩ := Outcome.map_ok.mp hexec
    exact hsame (patchBuild_sameStages hop)
  | archiveBuild buildId =>
    simp only [exec, archiveBuild, Outcome.bind_ok, Outcome.pure_ok] at hexec
    obtain ⟨_, _, ⟨n, db₁⟩, hrelease, rfl⟩ := hexec
    have hreleased := releaseReservations_sameStages hrelease
    exact hsame hreleased
  | restoreBuild buildId =>
    simp only [exec, restoreBuild, Outcome.bind_ok, Outcome.pure_ok] at hexec
    obtain ⟨_, _, rfl⟩ := hexec
    exact hsame ⟨rfl, rfl⟩
  | consumeBuild buildId payload =>
    obtain ⟨⟨result, _⟩, hop, rfl⟩ := Outcome.map_ok.mp hexec
    simp only [consumeBuild, Outcome.bind_ok, Outcome.mapError_ok] at hop
    obtain ⟨_, _, _, _, _, _, hconsume⟩ := hop
    exact hsame (consume_sameStages hconsume)
  | createBuildStage buildId payload =>
    obtain ⟨⟨stage, _⟩, hop, rfl⟩ := Outcome.map_ok.mp hexec
    obtain ⟨b, p, _, _, _, hcreated⟩ := createBuildStage_ok hop
    exact wellStaged_created hcreated h
  | consumeBuildStage buildId stageId payload =>
    obtain ⟨⟨result, _⟩, hop, rfl⟩ := Outcome.map_ok.mp hexec
    obtain ⟨b, p, stage, _, _, _, _, hconsumed⟩ := consumeBuildStage_ok hop
    exact wellStaged_marked (consumeStage_marked hconsumed) h
  | ledger | receiveOrder | buildKit | buildStageKit | createStorage | patchStorage
  | archiveStorage | restoreStorage | editCatalogue => exact absurd trivial hstock

end Stages

/-- Everything a ledger or stage row refers to is there. -/
structure WellReferenced (db : Db) : Prop where
  located : StockLocated db
  lots : LotsExist db
  staged : WellStaged db

theorem runCalls_wellReferenced {db₀ : Db} (h : WellReferenced db₀) (calls : List Call) :
    WellReferenced (runCalls db₀ calls) := by
  have hany : Outcome.Meets exec (Outcome.Accepted exec (AdjustMeets fun _ _ _ => True)) db₀ calls :=
    meets_of_forall (fun call m _ => adjustMeets_true call m) db₀ calls
  constructor
  case located => exact runCalls_invariant (fun _ _ => ledgerStep_stockLocated) hany h.located
  case lots => exact runCalls_invariant (fun _ _ => ledgerStep_lotsExist) hany h.lots
  case staged =>
    exact Outcome.run_invariant (fun _ _ _ hI hexec => exec_wellStaged hI hexec) calls h.staged

theorem WellReferenced.empty {db : Db} (hledger : db.stockEntries = [])
    (hstages : db.buildStages = []) (hlines : db.buildStageLines = []) : WellReferenced db := by
  constructor
  case located => exact StockLocated.empty hledger
  case lots => exact fun e he => absurd he (by simp [hledger])
  case staged => exact .empty hstages hlines

end StockManager
