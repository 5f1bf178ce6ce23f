import StockManager.Effects.StageOrder
import StockManager.Properties.Reservations

/-! # Reservations of archived parts

`archive_part` refuses a part with reserved stock. `bulk_delete_parts` does not
look, and a build may reserve a part of its BOM that was archived since; where a
run does neither, an archived part holds nothing. -/

namespace StockManager

def PartSpent (db : Db) (workspaceId partId : Uuid) : Prop :=
  ∀ r ∈ db.stockEntries, r.isReserve → r.workspaceId = workspaceId → r.partId = some partId →
    remainder db.stockEntries r = 0

section Total

variable {db : Db} {workspaceId partId : Uuid}

theorem reservedTotal_eq (h : ReservationsSound db) :
    totalForPart db workspaceId partId .reserved =
      tally (fun r => r.isReserve ∧ r.workspaceId = workspaceId ∧ r.partId = some partId)
        (remainder db.stockEntries) db.stockEntries := by
  let own := db.stockEntries.filter fun r : StockEntry =>
    r.isReserve ∧ r.workspaceId = workspaceId ∧ r.partId = some partId
  have hown : ∀ r, r ∈ own ↔ r ∈ db.stockEntries ∧ r.isReserve ∧ r.workspaceId = workspaceId ∧
      r.partId = some partId := by
    intro r
    rw [List.mem_filter, decide_eq_true_eq]
  have hkeys : (own.map fun r => some r.id).Nodup := by
    have hids : (own.map (·.id)).Nodup := h.rows.nodup.sublist (List.filter_sublist.map _)
    have hmap : own.map (fun r => some r.id) = (own.map (·.id)).map some := by
      rw [List.map_map]
      rfl
    rw [hmap]
    exact hids.map (Option.some_injective _)
  -- A release of the part points at a reserve row of the part, and the other way round.
  have hpoints : ∀ e ∈ db.stockEntries, e.isRelease → ∀ r ∈ db.stockEntries,
      e.relatedEntryId = some r.id →
        r.isReserve ∧ e.workspaceId = r.workspaceId ∧ e.partId = r.partId := by
    intro e he hrel r hr hid
    obtain ⟨s, hs, hres, hsid, hws, _, hpart⟩ := h.rows.backed e he hrel
    rw [hid] at hsid
    obtain rfl := eq_of_id h.rows.nodup hr hs (Option.some.inj hsid)
    exact ⟨hres, hws, hpart⟩
  have hreleased : tally (fun e : StockEntry => e.isRelease ∧ e.workspaceId = workspaceId ∧
      e.partId = some partId) (fun e => -e.quantityDelta) db.stockEntries =
        (own.map fun r => released db.stockEntries r.id).sum := by
    rw [← Tally.tally_groups _ _ StockEntry.relatedEntryId hkeys ?hback, List.map_map]
    case hback =>
      intro e he hp
      obtain ⟨r, hr, hres, hid, hws, _, hpart⟩ := h.rows.backed e he hp.1
      rw [hid]
      exact List.mem_map_of_mem ((hown r).mpr ⟨hr, hres, hws ▸ hp.2.1, hpart ▸ hp.2.2⟩)
    congr 1
    apply List.map_congr_left
    intro r hr
    obtain ⟨hmem, _, hws, hpart⟩ := (hown r).mp hr
    apply Tally.tally_congr
    · intro e he
      constructor
      · rintro ⟨⟨hrel, _⟩, hid⟩
        exact ⟨hrel, hid⟩
      · rintro ⟨hrel, hid⟩
        obtain ⟨_, hsameWs, hsamePart⟩ := hpoints e he hrel r hmem hid
        exact ⟨⟨hrel, hsameWs.trans hws, hsamePart.trans hpart⟩, hid⟩
    · exact fun _ _ _ => rfl
  have hreserve : tally (fun e : StockEntry => (e.workspaceId = workspaceId ∧
      e.partId = some partId ∧ e.status = .reserved) ∧ e.isReserve) (·.quantityDelta)
        db.stockEntries =
      tally (fun r => r.isReserve ∧ r.workspaceId = workspaceId ∧ r.partId = some partId)
        (·.quantityDelta) db.stockEntries := by
    apply Tally.tally_congr
    · intro e _
      simp only [StockEntry.isReserve]
      tauto
    · exact fun _ _ _ => rfl
  have hrelease : tally (fun e : StockEntry => (e.workspaceId = workspaceId ∧
      e.partId = some partId ∧ e.status = .reserved) ∧ ¬ e.isReserve) (·.quantityDelta)
        db.stockEntries =
      0 - tally (fun e : StockEntry => e.isRelease ∧ e.workspaceId = workspaceId ∧
        e.partId = some partId) (fun e => -e.quantityDelta) db.stockEntries := by
    have hzero : tally (fun e : StockEntry => e.isRelease ∧ e.workspaceId = workspaceId ∧
        e.partId = some partId) (fun _ => (0 : Decimal)) db.stockEntries = 0 := by
      simp [tally]
    rw [← hzero, ← Tally.tally_sub]
    apply Tally.tally_congr
    · intro e he
      constructor
      · rintro ⟨⟨hws, hpart, hstatus⟩, hnot⟩
        exact ⟨(h.rows.kinds e he hstatus).resolve_left hnot, hws, hpart⟩
      · rintro ⟨hrel, hws, hpart⟩
        refine ⟨⟨hws, hpart, hrel.1⟩, fun hres => ?_⟩
        have hop := hres.2.symm.trans hrel.2
        cases hop
    · intro e _ _
      rw [zero_sub, neg_neg]
  have htotal : totalForPart db workspaceId partId .reserved =
      tally (fun e : StockEntry => e.workspaceId = workspaceId ∧ e.partId = some partId ∧
        e.status = .reserved) (·.quantityDelta) db.stockEntries := by
    apply Tally.tally_congr
    · intro e _
      simp
    · exact fun _ _ _ => rfl
  rw [htotal, Tally.tally_split _ fun e : StockEntry => e.isReserve, hreserve, hrelease, hreleased]
  change _ = tally _ (fun r => r.quantityDelta - released db.stockEntries r.id) db.stockEntries
  rw [Tally.tally_sub, zero_sub, ← sub_eq_add_neg]
  rfl

theorem reservedTotal_nonneg (h : ReservationsSound db) :
    0 ≤ totalForPart db workspaceId partId .reserved := by
  rw [reservedTotal_eq h]
  exact Tally.tally_nonneg _ _ fun r hr hp => h.within r hr hp.1

theorem reservedTotal_zero (h : ReservationsSound db) :
    totalForPart db workspaceId partId .reserved = 0 ↔ PartSpent db workspaceId partId := by
  rw [reservedTotal_eq h]
  constructor
  · intro hzero r hr hres hws hpart
    refine le_antisymm ?_ (h.within r hr hres)
    rw [← hzero]
    exact Tally.le_tally _ _ (fun x hx hp => h.within x hx hp.1) hr ⟨hres, hws, hpart⟩
  · intro hspent
    apply List.sum_eq_zero
    intro x hx
    obtain ⟨r, hr, rfl⟩ := List.mem_map.mp hx
    obtain ⟨hmem, hp⟩ := List.mem_filter.mp hr
    have hown := of_decide_eq_true hp
    exact hspent r hmem hown.1 hown.2.1 hown.2.2

theorem partSpent_of_checked (h : ReservationsSound db)
    (hchecked : totalForPart db workspaceId partId .reserved ≤ 0) :
    PartSpent db workspaceId partId :=
  (reservedTotal_zero h).mp (le_antisymm hchecked (reservedTotal_nonneg h))

end Total

section Builds

variable {ctx : Ctx} {db db' : Db} {build : Build} {project : Project}

theorem releaseReservations_sameBom {n : ℕ}
    (h : releaseReservations ctx db build = .ok (n, db')) : SameBom db db' := by
  obtain ⟨rows, happends, _⟩ := releaseReservations_rows h
  exact happends.sameBom

theorem applyReservations_sameBom {n : ℕ}
    (h : applyReservations ctx db build project = .ok (n, db')) : SameBom db db' := by
  obtain ⟨rows, happends, _⟩ := applyReservations_rows h
  exact happends.sameBom

theorem updateBuild_sameBom (db : Db) (id : Uuid) (f : Build → Build) :
    SameBom db (db.updateBuild id f) := ⟨rfl, rfl, rfl⟩

theorem consume_sameBom {payload : ConsumeIn} {result : ConsumeResult}
    (h : consume ctx db build project payload = .ok (result, db')) : SameBom db db' := by
  simp only [consume, Outcome.bind_ok, Outcome.pure_ok, Prod.mk.injEq] at h
  obtain ⟨_, _, ⟨n, db₁⟩, hrelease, ⟨rows, db₂⟩, hlines, ⟨output, db₃⟩, houtput, _, rfl⟩ := h
  have hdrawn := (consumeLines_rows (applyConsumeLines_ok hlines)).1
  have hproduced := (produceOutput_same houtput).1
  exact ((releaseReservations_sameBom hrelease).trans hdrawn.sameBom).trans
    (hproduced.trans (updateBuild_sameBom ..))

theorem buildOp_sameBom {op : BuildOp} (h : exec ⟨ctx, op.request⟩ db = .ok db') :
    SameBom db db' := by
  cases op with
  | createBuild payload =>
    obtain ⟨⟨build, _⟩, hop, rfl⟩ := Outcome.map_ok.mp h
    simp only [createBuild, Outcome.bind_ok, Outcome.pure_ok, insertBuild_ok, Prod.mk.injEq] at hop
    obtain ⟨project, _, _, ⟨_, rfl⟩, ⟨n, db₂⟩, happly, _, rfl⟩ := hop
    have hinserted : SameBom db { db with builds := db.builds ++ [newBuild ctx payload project] } :=
      ⟨rfl, rfl, rfl⟩
    exact hinserted.trans (applyReservations_sameBom happly)
  | patchBuild buildId payload =>
    obtain ⟨⟨build, _⟩, hop, rfl⟩ := Outcome.map_ok.mp h
    simp only [patchBuild, Outcome.bind_ok] at hop
    obtain ⟨old, _, _, _, _, _, b, _, hrest⟩ := hop
    have hwritten := updateBuild_sameBom db b.id fun _ => b
    split at hrest
    next =>
      simp only [Outcome.bind_ok, Outcome.pure_ok, Prod.mk.injEq] at hrest
      obtain ⟨⟨n, db₁⟩, hrelease, _, rfl⟩ := hrest
      exact hwritten.trans (releaseReservations_sameBom hrelease)
    next =>
      split at hrest
      next =>
        simp only [Outcome.bind_ok, Outcome.pure_ok, Prod.mk.injEq] at hrest
        obtain ⟨project, _, ⟨n, db₁⟩, hrelease, ⟨m, db₂⟩, happly, _, rfl⟩ := hrest
        exact hwritten.trans ((releaseReservations_sameBom hrelease).trans
          (applyReservations_sameBom happly))
      next =>
        simp only [Outcome.pure_ok, Prod.mk.injEq] at hrest
        exact hrest.2 ▸ hwritten
  | archiveBuild buildId =>
    simp only [exec, BuildOp.request, archiveBuild, Outcome.bind_ok, Outcome.pure_ok] at h
    obtain ⟨b, _, ⟨n, db₁⟩, hrelease, rfl⟩ := h
    exact (releaseReservations_sameBom hrelease).trans (updateBuild_sameBom ..)
  | restoreBuild buildId =>
    simp only [exec, BuildOp.request, restoreBuild, Outcome.bind_ok, Outcome.pure_ok] at h
    obtain ⟨b, _, rfl⟩ := h
    exact updateBuild_sameBom ..
  | consumeBuild buildId payload =>
    obtain ⟨⟨result, _⟩, hop, rfl⟩ := Outcome.map_ok.mp h
    simp only [consumeBuild, Outcome.bind_ok, Outcome.mapError_ok] at hop
    obtain ⟨build, _, _, _, _, _, hconsume⟩ := hop
    exact consume_sameBom hconsume
  | consumeBuildStage buildId stageId payload =>
    obtain ⟨⟨result, _⟩, hop, rfl⟩ := Outcome.map_ok.mp h
    obtain ⟨b, p, stage, _, _, _, _, hconsumed⟩ := consumeBuildStage_ok hop
    exact (consumeStage_marked hconsumed).bom

end Builds

/-- What keeps a request from leaving an archived part with reservations: a bulk delete lists no
part with reserved stock, and a build reserves no archived part. -/
def LeavesNone (call : PartsCall) (s : PartsDb) : Prop :=
  match call.request with
  | .bulkDeleteParts partIds => ∀ p ∈ s.db.parts, p.workspaceId = call.ctx.workspaceId →
      p.id ∈ partIds → ¬ s.isArchived p.id →
        totalForPart s.db call.ctx.workspaceId p.id .reserved ≤ 0
  | .build op => ∀ project quantity, Reserving ⟨call.ctx, op.request⟩ s.db project quantity →
      ∀ e ∈ consumableEntries s.db call.ctx.workspaceId project, ∀ part,
        e.partId.bind s.db.part = some part → s.isArchived part.id →
          required e (some part) quantity ≤ 0
  | _ => True

structure ArchiveSound (s : PartsDb) : Prop where
  ids : (s.db.parts.map (·.id)).Nodup
  sound : ReservationsSound s.db
  spent : ∀ p ∈ s.db.parts, s.isArchived p.id → PartSpent s.db p.workspaceId p.id

section Step

variable {ctx : Ctx} {s s' : PartsDb}

theorem archivePart_kept {partId : Uuid} (h : ArchiveSound s)
    (hop : archivePart ctx s partId = .ok s') : ArchiveSound s' := by
  simp only [archivePart, Outcome.bind_ok, Outcome.check_ok, exists_const, Outcome.pure_ok] at hop
  obtain ⟨p, hadmin, hchecked, rfl⟩ := hop
  obtain ⟨hp, hws⟩ := requireAdmin_ok hadmin
  refine ⟨h.ids, h.sound, ?_⟩
  intro q hq harchived
  by_cases hsame : p.id = q.id
  · obtain rfl := List.inj_on_of_nodup_map h.ids (List.mem_of_find?_eq_some hp) hq hsame
    rw [hws]
    exact partSpent_of_checked h.sound hchecked
  · apply h.spent q hq
    rwa [PartsDb.isArchived, Dict.put, Dict.find_upsert_of_ne hsame] at harchived

theorem restorePart_kept {partId : Uuid} {mpnFree : Bool} (h : ArchiveSound s)
    (hop : restorePart ctx s partId mpnFree = .ok s') : ArchiveSound s' := by
  simp only [restorePart, Outcome.bind_ok, Outcome.pure_ok] at hop
  obtain ⟨p, _, _, _, rfl⟩ := hop
  refine ⟨h.ids, h.sound, ?_⟩
  intro q hq harchived
  apply h.spent q hq
  by_cases hsame : p.id = q.id
  · rw [PartsDb.isArchived, hsame, Dict.find_erase_self] at harchived
    exact absurd rfl harchived
  · rwa [PartsDb.isArchived, Dict.find_erase_of_ne hsame] at harchived

theorem archiveRows_archived (now : Timestamp) (rows : List Part)
    (archivedAt : List (Uuid × Timestamp)) {id : Uuid}
    (h : Dict.find id (archiveRows now rows archivedAt).2 ≠ none) :
    Dict.find id archivedAt ≠ none ∨ ∃ p ∈ rows, p.id = id := by
  induction rows generalizing archivedAt with
  | nil => exact .inl h
  | cons p rows ih =>
    unfold archiveRows at h
    split at h
    next =>
      rcases ih _ h with hold | ⟨q, hq, hid⟩
      · by_cases hsame : p.id = id
        · exact .inr ⟨p, List.mem_cons_self .., hsame⟩
        · rw [Dict.put, Dict.find_upsert_of_ne hsame] at hold
          exact .inl hold
      · exact .inr ⟨q, List.mem_cons_of_mem _ hq, hid⟩
    next =>
      rcases ih _ h with hold | ⟨q, hq, hid⟩
      · exact .inl hold
      · exact .inr ⟨q, List.mem_cons_of_mem _ hq, hid⟩

theorem bulkDeleteParts_kept {partIds : List Uuid} {result : BulkDeleteResult}
    (h : ArchiveSound s) (hcond : LeavesNone ⟨ctx, .bulkDeleteParts partIds⟩ s)
    (hop : bulkDeleteParts ctx s partIds = .ok (result, s')) : ArchiveSound s' := by
  simp only [bulkDeleteParts, Outcome.bind_ok, Outcome.pure_ok, Prod.mk.injEq] at hop
  obtain ⟨_, _, _, rfl⟩ := hop
  refine ⟨h.ids, h.sound, ?_⟩
  intro q hq harchived
  by_cases hwas : s.isArchived q.id
  · exact h.spent q hq hwas
  · rcases archiveRows_archived _ _ _ harchived with hold | ⟨p, hp, hid⟩
    · exact absurd hold hwas
    · obtain ⟨hmem, hlisted⟩ := List.mem_filter.mp hp
      obtain rfl := List.inj_on_of_nodup_map h.ids hmem hq hid
      obtain ⟨hws, hin⟩ := of_decide_eq_true hlisted
      rw [hws]
      exact partSpent_of_checked h.sound (hcond p hmem hws hin hwas)

theorem build_kept_archive {op : BuildOp} {db' : Db} (h : ArchiveSound s)
    (hcond : LeavesNone ⟨ctx, .build op⟩ s) (hop : exec ⟨ctx, op.request⟩ s.db = .ok db') :
    ArchiveSound { s with db := db' } := by
  have hbom := buildOp_sameBom hop
  obtain ⟨hsound, _, hsettled⟩ := exec_reservationsKept h.sound hop
  have hids : (db'.parts.map (·.id)).Nodup := hbom.parts ▸ h.ids
  refine ⟨hids, hsound, ?_⟩
  intro p hp harchived r hr hres hws hpart
  have hmem : p ∈ s.db.parts := hbom.parts ▸ hp
  rcases hsettled r hr hres with ⟨project, quantity, hreserving, hnew⟩ | ⟨hold, hkeep⟩
  · obtain ⟨_, e, he, part, hbound, hpos, hown⟩ := hnew
    rw [hpart, Option.some.injEq] at hown
    have hnone := hcond project quantity hreserving e he part hbound (hown ▸ harchived)
    exact absurd hpos (not_lt.mpr hnone)
  · exact hkeep (h.spent p hmem harchived r hold hres hws hpart)

end Step

theorem partsCall_kept {call : PartsCall} {s s' : PartsDb} (h : ArchiveSound s)
    (hcond : LeavesNone call s) (hexec : call.exec s = .ok s') : ArchiveSound s' := by
  obtain ⟨ctx, request⟩ := call
  cases request with
  | archivePart partId => exact archivePart_kept h hexec
  | restorePart partId mpnFree => exact restorePart_kept h hexec
  | bulkDeleteParts partIds =>
    obtain ⟨⟨result, _⟩, hop, rfl⟩ := Outcome.map_ok.mp hexec
    exact bulkDeleteParts_kept h hcond hop
  | build op =>
    obtain ⟨db', hop, rfl⟩ := Outcome.map_ok.mp hexec
    exact build_kept_archive h hcond hop

theorem reservationsSound_onHand {db : Db} (hids : (db.stockEntries.map (·.id)).Nodup)
    (honHand : ∀ e ∈ db.stockEntries, e.status = .onHand) : ReservationsSound db := by
  have hnone : ∀ e ∈ db.stockEntries, e.status ≠ .reserved := by
    intro e he hreserved
    rw [honHand e he] at hreserved
    cases hreserved
  refine ⟨⟨hids, ?_, ?_⟩, ?_, ?_⟩
  · exact fun e he hstatus => absurd hstatus (hnone e he)
  · exact fun e he hrel => absurd hrel.1 (hnone e he)
  · exact fun r hr hres => absurd hres.1 (hnone r hr)
  · exact fun r hr hres => absurd hres.1 (hnone r hr)

/-- In a run that leaves none behind, an archived part has nothing reserved. -/
theorem archivedPart_holdsNothing {s₀ : PartsDb} (hparts : (s₀.db.parts.map (·.id)).Nodup)
    (hids : (s₀.db.stockEntries.map (·.id)).Nodup)
    (honHand : ∀ e ∈ s₀.db.stockEntries, e.status = .onHand) {calls : List PartsCall}
    (hmeets : Outcome.Meets PartsCall.exec (Outcome.Accepted PartsCall.exec LeavesNone) s₀ calls) :
    ∀ p ∈ (runParts s₀ calls).db.parts, (runParts s₀ calls).isArchived p.id →
      totalForPart (runParts s₀ calls).db p.workspaceId p.id .reserved = 0 := by
  have hstart : ArchiveSound s₀ := by
    refine ⟨hparts, reservationsSound_onHand hids honHand, ?_⟩
    intro p _ _ r hr hres _ _
    have hstatus := (honHand r hr).symm.trans hres.1
    cases hstatus
  have hkept : ArchiveSound (runParts s₀ calls) :=
    Outcome.run_invariant_of_accepted (fun _ _ _ h hcond hexec => partsCall_kept h hcond hexec)
      hstart hmeets
  exact fun p hp harchived => (reservedTotal_zero hkept.sound).mpr (hkept.spent p hp harchived)

/-- A build that needs four bolts is created and archived; then the bolt is. -/
def sampleArchiveCalls : List PartsCall :=
  [⟨sampleCtx 100, .build (.createBuild (sampleBuildIn 2 Nat.two_pos))⟩,
    ⟨sampleCtx 200, .build (.archiveBuild 100)⟩,
    ⟨sampleCtx 300, .archivePart 10⟩]

theorem archivedPart_holdsNothing_sample :
    (runParts ⟨sampleProjectDb 2, []⟩ sampleArchiveCalls).isArchived 10 ∧
      totalForPart (runParts ⟨sampleProjectDb 2, []⟩ sampleArchiveCalls).db 1 10 .reserved = 0 := by
  have hmeets : Outcome.Meets PartsCall.exec (Outcome.Accepted PartsCall.exec LeavesNone)
      ⟨sampleProjectDb 2, []⟩ sampleArchiveCalls := by
    refine ⟨fun _ => ?_, fun _ _ _ hreserving => hreserving.elim, fun _ => trivial, trivial⟩
    exact fun _ _ _ _ _ _ _ harchived => absurd rfl harchived
  have hpart : (runParts ⟨sampleProjectDb 2, []⟩ sampleArchiveCalls).db.part 10 =
      some (samplePart 10 "bolt") := by decide +kernel
  have harchived : (runParts ⟨sampleProjectDb 2, []⟩ sampleArchiveCalls).isArchived 10 := by
    decide +kernel
  exact ⟨harchived, archivedPart_holdsNothing (by decide) (by decide)
    (by decide) hmeets _ (List.mem_of_find?_eq_some hpart) harchived⟩

/-- The bulk route archives the bolt while the build still holds six. -/
theorem bulkDelete_keeps_reservation :
    ¬ ∀ (s₀ : PartsDb) (calls : List PartsCall), (s₀.db.parts.map (·.id)).Nodup →
      s₀.db.stockEntries = [] → ∀ p ∈ (runParts s₀ calls).db.parts,
        (runParts s₀ calls).isArchived p.id →
          totalForPart (runParts s₀ calls).db p.workspaceId p.id .reserved = 0 := by
  intro h
  have hsix : ∃ p ∈ (runParts ⟨sampleProjectDb 2, []⟩
      [⟨sampleCtx 100, .build (.createBuild (sampleBuildIn 3 Nat.succ_pos'))⟩,
        ⟨sampleCtx 200, .bulkDeleteParts [10]⟩]).db.parts,
      (runParts ⟨sampleProjectDb 2, []⟩
        [⟨sampleCtx 100, .build (.createBuild (sampleBuildIn 3 Nat.succ_pos'))⟩,
          ⟨sampleCtx 200, .bulkDeleteParts [10]⟩]).isArchived p.id ∧
      totalForPart (runParts ⟨sampleProjectDb 2, []⟩
        [⟨sampleCtx 100, .build (.createBuild (sampleBuildIn 3 Nat.succ_pos'))⟩,
          ⟨sampleCtx 200, .bulkDeleteParts [10]⟩]).db p.workspaceId p.id .reserved = 6 := by
    decide +kernel
  obtain ⟨p, hp, harchived, htotal⟩ := hsix
  have hzero := h ⟨sampleProjectDb 2, []⟩ _ (by decide) rfl p hp harchived
  rw [htotal] at hzero
  exact absurd hzero (by decide)

end StockManager
