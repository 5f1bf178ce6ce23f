import StockManager.Properties.PickConsume

/-! # Consuming covers the BOM or does nothing

Lines that `apply_consume_lines` takes cover every entry the pass asks for with
the entry's part or a candidate for it, and leave no bucket below zero. The
pre-pass over the buckets decides the stock: behind it, no line can find too
little. -/

namespace StockManager

/-- What a pass asks for: the whole build, or the slices of one stage. -/
def passRequired (db : Db) (workspaceId : Uuid) (build : Build) (project : Project) :
    Option BuildStage → List (Uuid × ℤ)
  | none => requiredOfBuild db workspaceId build project
  | some stage => requiredOfStage db workspaceId build project stage.id

/-- The same catalogue and BOM over another ledger. -/
def Db.withLedger (db : Db) (ledger : List StockEntry) : Db := { db with stockEntries := ledger }

/-- A line of the pass: its entry is asked for, and its part may stand for the entry's. -/
structure LineOfPass (db : Db) (entriesById : List (Uuid × ProjectEntry))
    (requiredByEntry : List (Uuid × ℤ)) (line : ConsumeLineIn) (e : ProjectEntry) (own : Uuid) :
    Prop where
  found : Dict.find line.projectEntryId entriesById = some e
  asked : e.id ∈ Dict.keys requiredByEntry
  notDnp : e.dnp = false
  part : e.partId = some own
  stands : line.partId = own ∨
    ∃ part, db.part own = some part ∧ line.partId ∈ candidatePartIds db part

/-- The lines cover what was asked for, and one row was written for each. -/
structure ConsumeSound (db db' : Db) (workspaceId : Uuid) (build : Build)
    (entriesById : List (Uuid × ProjectEntry)) (requiredByEntry : List (Uuid × ℤ))
    (lines : List ConsumeLineIn) (rows : List StockEntry) : Prop where
  covered : ∀ item ∈ requiredByEntry, item.2 ≤ suppliedFor lines item.1
  ofPass : ∀ line ∈ lines, ∃ e own, LineOfPass db entriesById requiredByEntry line e own
  written : db' = db.withLedger (db.stockEntries ++ rows)
  rows : List.Forall₂ (ConsumeRow workspaceId build) lines rows
  drawn : ∀ line ∈ lines, 0 ≤ balance db'.stockEntries (line.bucket workspaceId)
  nonneg : ∀ b, 0 ≤ balance db.stockEntries b → 0 ≤ balance db'.stockEntries b

section Lines

variable {ctx : Ctx} {db db' : Db} {build : Build} {project : Project}
  {entriesById : List (Uuid × ProjectEntry)} {requiredByEntry : List (Uuid × ℤ)}
  {now : Timestamp} {buildStageId : Option Uuid} {lines : List ConsumeLineIn}
  {line : ConsumeLineIn} {rows : List StockEntry} {row : StockEntry}

theorem consumeLine_ofPass (h : consumeLine ctx db build project entriesById requiredByEntry now
    buildStageId line = .ok (row, db')) :
    ∃ e own, LineOfPass db entriesById requiredByEntry line e own := by
  simp only [consumeLine, Outcome.bind_ok, Outcome.check_ok, exists_const, Outcome.orRaise_ok,
    Outcome.each_ok] at h
  obtain ⟨e, hfound, ⟨_, hsome⟩, hdnp, hasked, hpart, _⟩ := h
  obtain ⟨part, hentry⟩ := Option.isSome_iff_exists.mp hsome
  have hcheck := hpart part (by simp [hentry])
  refine ⟨e, part, hfound, hasked, hdnp, hentry, ?_⟩
  unfold checkLinePart at hcheck
  split at hcheck
  next hsame => exact Or.inl hsame
  next =>
    simp only [Outcome.bind_ok, Outcome.orRaise_ok, Outcome.check_ok] at hcheck
    exact Or.inr hcheck

theorem consumeLines_ofPass (h : consumeLines ctx db build project entriesById requiredByEntry now
    buildStageId lines = .ok (rows, db')) :
    ∀ line ∈ lines, ∃ e own, LineOfPass db entriesById requiredByEntry line e own := by
  induction lines generalizing ctx db rows with
  | nil => exact fun _ hline => by cases hline
  | cons head lines ih =>
    simp only [consumeLines, Outcome.bind_ok, Outcome.pure_ok, Prod.exists, Prod.mk.injEq] at h
    obtain ⟨row, db₁, hhead, others, db₂, hrest, _, rfl⟩ := h
    intro line hline
    rcases List.mem_cons.mp hline with rfl | hline
    · exact consumeLine_ofPass hhead
    · -- The rows written before change neither the BOM nor the catalogue.
      obtain ⟨_, rfl⟩ := insertStockEntry_ok.mp (consumeLine_rows hhead).1
      obtain ⟨e, part, hof⟩ := ih hrest line hline
      exact ⟨e, part, hof.found, hof.asked, hof.notDnp, hof.part, hof.stands⟩

theorem consumeLines_balance (h : consumeLines ctx db build project entriesById requiredByEntry now
    buildStageId lines = .ok (rows, db')) (b : Bucket) :
    balance db'.stockEntries b =
      balance db.stockEntries b - demandOn ctx.workspaceId lines b := by
  obtain ⟨happends, hrows⟩ := consumeLines_rows h
  rw [happends.eq, balance_append, consumeRows_balance hrows, ← sub_eq_add_neg]

theorem demandOn_append (workspaceId : Uuid) (a b : List ConsumeLineIn) (k : Bucket) :
    demandOn workspaceId (a ++ b) k = demandOn workspaceId a k + demandOn workspaceId b k :=
  Tally.tally_append ..

theorem consumeLines_enough {before after : List ConsumeLineIn}
    (hpre : ∀ l ∈ before ++ line :: after, (demandOn ctx.workspaceId (before ++ line :: after)
      (l.bucket ctx.workspaceId) : Decimal) ≤ balance db.stockEntries (l.bucket ctx.workspaceId))
    (h : consumeLines ctx db build project entriesById requiredByEntry now buildStageId before =
      .ok (rows, db')) :
    (line.quantity : Decimal) ≤ currentQuantity db' ctx.workspaceId line.partId
      line.storageLocationId line.lotId .onHand true := by
  have hline : line ∈ before ++ line :: after := by simp
  have hall := hpre line hline
  have hrest := le_demandOn ctx.workspaceId (List.mem_cons_self (a := line) (l := after))
  rw [demandOn_append, Int.cast_add] at hall
  rw [currentQuantity_bucket]
  have hleft := consumeLines_balance h (line.bucket ctx.workspaceId)
  have hcast : (line.quantity : Decimal) ≤
      (demandOn ctx.workspaceId (line :: after) (line.bucket ctx.workspaceId) : ℤ) :=
    Int.cast_le.mpr hrest
  change _ ≤ balance db'.stockEntries (line.bucket ctx.workspaceId)
  rw [hleft]
  linarith

theorem demandOn_of_not_named {workspaceId : Uuid} {b : Bucket}
    (h : ∀ l ∈ lines, l.bucket workspaceId ≠ b) : demandOn workspaceId lines b = 0 :=
  Tally.tally_eq_zero _ _ h

theorem applyConsumeLines_sound
    (hentries : ∀ item ∈ requiredByEntry, ∃ e part, Dict.find item.1 entriesById = some e ∧
      e.partId.bind db.part = some part)
    (h : applyConsumeLines ctx db build project lines entriesById requiredByEntry now
      buildStageId = .ok (rows, db')) :
    ConsumeSound db db' ctx.workspaceId build entriesById requiredByEntry lines rows := by
  have hlines := applyConsumeLines_ok h
  obtain ⟨happends, hrows⟩ := consumeLines_rows hlines
  simp only [applyConsumeLines, Outcome.bind_ok, Outcome.pure_ok, Outcome.each_ok, exists_const,
    Prod.exists, Prod.mk.injEq] at h
  obtain ⟨hdemand, rows', db₁, hlines', hcovered, rfl, rfl⟩ := h
  have henough := checkDemand_ok.mp hdemand
  have hbalance := consumeLines_balance hlines
  have hdrawn : ∀ line ∈ lines, 0 ≤ balance db₁.stockEntries (line.bucket ctx.workspaceId) := by
    intro line hline
    rw [hbalance]
    exact sub_nonneg.mpr (henough line hline)
  constructor
  case covered =>
    intro item hitem
    obtain ⟨e, part, hfind, hpart⟩ := hentries item hitem
    have hcheck := hcovered item hitem
    have hentryPart : (Dict.find item.1 entriesById).bind (fun e => e.partId.bind db₁.part) =
        some part := by
      rw [hfind, happends.eq]
      exact hpart
    simp only [checkCovered, hentryPart, Outcome.check_ok, Dict.getD_find_totals] at hcheck
    exact hcheck
  case ofPass => exact consumeLines_ofPass hlines
  case written => exact happends.eq
  case rows => exact hrows
  case drawn => exact hdrawn
  case nonneg =>
    intro b hb
    by_cases hnamed : ∃ line ∈ lines, line.bucket ctx.workspaceId = b
    · obtain ⟨line, hline, rfl⟩ := hnamed
      exact hdrawn line hline
    · push Not at hnamed
      rw [hbalance, demandOn_of_not_named hnamed, Int.cast_zero, sub_zero]
      exact hb

end Lines

theorem passRequired_entry {db : Db} {workspaceId : Uuid} {build : Build} {project : Project}
    (hids : (db.projectEntries.map (·.id)).Nodup) {stage : Option BuildStage} {item : Uuid × ℤ}
    (h : item ∈ passRequired db workspaceId build project stage) :
    ∃ e part, Dict.find item.1 (projectEntriesById db workspaceId project) = some e ∧
      e.partId.bind db.part = some part := by
  cases stage with
  | none =>
    obtain ⟨e, he, part, hpart, rfl⟩ := (mem_requiredOfBuild hids).mp h
    obtain ⟨hmem, _⟩ := mem_consumableEntries.mp he
    exact ⟨e, part, projectEntriesById_find hids hmem, hpart⟩
  | some stage =>
    obtain ⟨_, e, part, hbom⟩ := requiredOfStage_item h
    exact ⟨e, part, hbom.found, hbom.part⟩

/-- The requests that consume. -/
def Request.consumes : Request → Prop
  | .consumeBuild _ _ | .consumeBuildStage _ _ _ => True
  | _ => False

/-- Over any ledger: lines that are taken cover the pass; behind the pre-pass no line finds too
little; and a consume request that raises leaves the database as it was. -/
theorem consume_allOrNothing (ctx : Ctx) (db : Db) (build : Build) (project : Project)
    (stage : Option BuildStage) (hids : (db.projectEntries.map (·.id)).Nodup)
    (ledger : List StockEntry) (lines : List ConsumeLineIn) (now : Timestamp)
    (buildStageId : Option Uuid) :
    (∀ rows db', applyConsumeLines ctx (db.withLedger ledger) build project lines
        (projectEntriesById db ctx.workspaceId project)
        (passRequired db ctx.workspaceId build project stage) now buildStageId = .ok (rows, db') →
      ConsumeSound (db.withLedger ledger) db' ctx.workspaceId build
        (projectEntriesById db ctx.workspaceId project)
        (passRequired db ctx.workspaceId build project stage) lines rows) ∧
    (Outcome.each (checkDemand ctx (db.withLedger ledger)) (Dict.totals
        (fun l : ConsumeLineIn => (l.partId, l.lotId, l.storageLocationId)) (·.quantity) lines) =
        .ok () →
      ∀ before line after, lines = before ++ line :: after →
        ∀ entriesById requiredByEntry rows db', consumeLines ctx (db.withLedger ledger) build
          project entriesById requiredByEntry now buildStageId before = .ok (rows, db') →
            (line.quantity : Decimal) ≤ currentQuantity db' ctx.workspaceId line.partId
              line.storageLocationId line.lotId .onHand true) ∧
    ∀ (call : Call) (e : Err), call.request.consumes → exec call (db.withLedger ledger) = .error e →
      runCalls (db.withLedger ledger) [call] = db.withLedger ledger := by
  refine ⟨?_, ?_, ?_⟩
  · intro rows db' h
    exact applyConsumeLines_sound (fun item hitem => passRequired_entry hids hitem) h
  · rintro hpre before line after rfl entriesById requiredByEntry rows db' h
    exact consumeLines_enough (checkDemand_ok.mp (Outcome.each_ok.mp hpre)) h
  · intro call e _ hraise
    rw [runCalls, Outcome.run_cons, hraise]
    rfl

/-- Two BOM lines of one part, consumed from two locations in three lines. -/
theorem consume_allOrNothing_sample : ∃ rows db', rows.length = 3 ∧
    ConsumeSound (samplePickDb.withLedger samplePickDb.stockEntries) db' 1 sampleStagedBuild
      (projectEntriesById samplePickDb 1 ⟨30, 1, none⟩)
      (passRequired samplePickDb 1 sampleStagedBuild ⟨30, 1, none⟩ none)
      samplePickPayload.lines rows := by
  have hsound := consume_allOrNothing (sampleCtx 9000) samplePickDb sampleStagedBuild
    ⟨30, 1, none⟩ none (by decide +kernel) samplePickDb.stockEntries samplePickPayload.lines 0 none
  have hrows : ((applyConsumeLines (sampleCtx 9000)
      (samplePickDb.withLedger samplePickDb.stockEntries) sampleStagedBuild ⟨30, 1, none⟩
      samplePickPayload.lines (projectEntriesById samplePickDb 1 ⟨30, 1, none⟩)
      (passRequired samplePickDb 1 sampleStagedBuild ⟨30, 1, none⟩ none) 0 none).toOption.map
        fun result => result.1.length) = some 3 := by
    decide +kernel
  obtain ⟨⟨rows, db'⟩, hresult, hlength⟩ := Option.map_eq_some_iff.mp hrows
  exact ⟨rows, db', hlength, hsound.1 rows db' (Outcome.toOption_eq_some.mp hresult)⟩

end StockManager
