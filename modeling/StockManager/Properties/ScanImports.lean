import Mathlib
import StockManager.Effects.ScanRows

/-! # Scan imports happen once and say what they did

What a committed import reports is what it has left, and a key that is in the cache
and not past its time is answered from there. A bag is imported once as long as no
two requests that carry it are under way at the same time: the bag check reads
without a lock, and the index on the signatures is not unique. -/

namespace StockManager.Scans

open Savepoints

def RowResult.createdRow? (r : RowResult) : Option CreatedRow :=
  match r.outcome with
  | .created c => some c
  | _ => none

/-- The rows a response reports as created. -/
def Response.createdRows : Response → List CreatedRow
  | .imported report => report.rows.filterMap (·.createdRow?)
  | _ => []

/-- Rows of the cache that the workspace no longer keeps. -/
def PastTime (workspaceId : Uuid) (now : Timestamp) (row : CacheRow) : Prop :=
  row.workspaceId = workspaceId ∧ row.createdAt + idempotencyTtl < now

/-- The writes of an import, by its response. -/
inductive Answered (call : ScanCall) (now : Timestamp) : Response → List ScanWrite → Prop
  | cached {swept : List CacheRow} {report : Report}
    (old : ∀ row ∈ swept, PastTime call.ctx.workspaceId now row) :
    Answered call now (.cached report) [.sweep swept]
  | imported {swept : List CacheRow} {report : Report} {left : List ScanWrite}
    {stored : Option CacheRow} (old : ∀ row ∈ swept, PastTime call.ctx.workspaceId now row)
    (rows : RowsLeft call.ctx.workspaceId call.payload.rows report.rows left) :
    Answered call now (.imported report)
      ([.sweep swept] ++ left ++ (stored.map .insertCache).toList)

/-- An import that began in `origin` and committed in `before`. -/
structure Truthful (call : ScanCall) (origin before : ScanState) (response : Response)
    (writes : List ScanWrite) : Prop where
  answered : Answered call before.now response writes
  parts : (store.applyAll writes before).db.parts.map (·.id) =
    before.db.parts.map (·.id) ++ response.createdRows.map (·.partId)
  stock : ∃ entries, (store.applyAll writes before).db.stockEntries =
      before.db.stockEntries ++ entries ∧
    List.Forall₂ (fun (c : CreatedRow) (e : StockEntry) =>
        e.partId = some c.partId ∧ e.quantityDelta = c.quantityAdded)
      (response.createdRows.filter fun c => 0 < c.quantityAdded) entries
  remembered : ∀ key ∈ call.explicitKey, ∀ row ∈ origin.cache,
    row.workspaceId = call.ctx.workspaceId → row.key = key →
      before.now ≤ row.createdAt + idempotencyTtl →
        ∃ report swept, response = .cached report ∧ writes = [.sweep swept]

section Report

variable {workspaceId : Uuid} {row : ScanImportRow} {result : RowResult} {left : List ScanWrite}

theorem StockLeft.entries {partId : Uuid} {quantity : ℕ}
    (h : StockLeft workspaceId partId row quantity left) :
    (quantity = 0 ∧ entriesOf left = []) ∨ (0 < quantity ∧ ∃ e, entriesOf left = [e] ∧
      e.workspaceId = workspaceId ∧ e.partId = some partId ∧ e.quantityDelta = quantity ∧
      e.bagSignature = row.bagSignature) := by
  cases h with
  | nothing => exact Or.inl ⟨rfl, rfl⟩
  | @added quantity lot e asked positive workspace part delta bag =>
    refine Or.inr ⟨positive, e, ?_, workspace, part, delta, bag⟩
    cases lot <;> rfl

theorem StockLeft.partIds {partId : Uuid} {quantity : ℕ}
    (h : StockLeft workspaceId partId row quantity left) : partIdsOf left = [] := by
  cases h with
  | nothing => rfl
  | @added quantity lot e asked positive workspace part delta bag => cases lot <;> rfl

theorem createdRow?_eq_none (h : result.outcome.status ≠ .created) : result.createdRow? = none := by
  unfold RowResult.createdRow?
  split
  next hcreated => exact absurd (congrArg RowOutcome.status hcreated) h
  next => rfl

theorem createdRow?_eq_some {c : CreatedRow} (h : result.outcome = .created c) :
    result.createdRow? = some c := by
  rw [RowResult.createdRow?, h]

theorem RowLeft.partIds (h : RowLeft workspaceId row result.outcome left) :
    partIdsOf left = (result.createdRow?.map (·.partId)).toList := by
  generalize houtcome : result.outcome = outcome at h
  cases h with
  | nothing h =>
    rw [createdRow?_eq_none (houtcome ▸ h)]
    rfl
  | created id workspace stock_left =>
    have hids := stock_left.partIds
    unfold partIdsOf at hids ⊢
    simp [createdRow?_eq_some houtcome, hids, id]

def StockOf (c : CreatedRow) (e : StockEntry) : Prop :=
  e.partId = some c.partId ∧ e.quantityDelta = c.quantityAdded

theorem RowLeft.entries (h : RowLeft workspaceId row result.outcome left) :
    List.Forall₂ StockOf (result.createdRow?.toList.filter fun c => 0 < c.quantityAdded)
      (entriesOf left) := by
  generalize houtcome : result.outcome = outcome at h
  cases h with
  | nothing h =>
    rw [createdRow?_eq_none (houtcome ▸ h)]
    exact .nil
  | @created c part columns described stock id workspace stock_left =>
    rw [createdRow?_eq_some houtcome]
    have hhead : entriesOf (.insertPart part columns :: .describePart part.id described :: stock) =
        entriesOf stock := rfl
    rw [hhead]
    rcases stock_left.entries with ⟨hzero, hentries⟩ | ⟨hpos, e, hentries, _, hpart, hdelta, _⟩
    · simp [hentries, hzero]
    · simp [hentries, hpos, StockOf, hpart, hdelta]

theorem RowsLeft.partIds {rows : List ScanImportRow} {results : List RowResult}
    (h : RowsLeft workspaceId rows results left) :
    partIdsOf left = (results.filterMap (·.createdRow?)).map (·.partId) := by
  induction h with
  | nil => rfl
  | @cons row result left rows results more first rest ih =>
    rw [partIdsOf_append, ih, first.partIds]
    cases hcreated : result.createdRow? with
    | none => simp [hcreated]
    | some c => simp [hcreated]

theorem RowsLeft.entries {rows : List ScanImportRow} {results : List RowResult}
    (h : RowsLeft workspaceId rows results left) :
    List.Forall₂ StockOf ((results.filterMap (·.createdRow?)).filter fun c => 0 < c.quantityAdded)
      (entriesOf left) := by
  induction h with
  | nil => exact .nil
  | @cons row result left rows results more first rest ih =>
    have happ : (result :: results).filterMap (·.createdRow?) =
        result.createdRow?.toList ++ results.filterMap (·.createdRow?) := by
      cases hcreated : result.createdRow? with
      | none => simp [hcreated]
      | some c => simp [hcreated]
    rw [happ, List.filter_append, entriesOf_append]
    exact List.rel_append first.entries ih

end Report

section Answers

variable {call : ScanCall} {now : Timestamp} {response : Response} {writes : List ScanWrite}

theorem Answered.partIds (h : Answered call now response writes) :
    partIdsOf writes = response.createdRows.map (·.partId) := by
  cases h with
  | cached old => rfl
  | @imported swept report left stored old rows =>
    have hstored : partIdsOf (stored.map ScanWrite.insertCache).toList = [] := by
      cases stored <;> rfl
    rw [partIdsOf_append, partIdsOf_append, hstored, rows.partIds, List.append_nil]
    rfl

theorem Answered.entries (h : Answered call now response writes) :
    List.Forall₂ StockOf (response.createdRows.filter fun c => 0 < c.quantityAdded)
      (entriesOf writes) := by
  cases h with
  | cached old => exact .nil
  | @imported swept report left stored old rows =>
    have hstored : entriesOf (stored.map ScanWrite.insertCache).toList = [] := by
      cases stored <;> rfl
    rw [entriesOf_append, entriesOf_append, hstored, List.append_nil]
    exact rows.entries

end Answers

section Truth

variable {ι : Type} (reqs : ι → ScanRequest)

def Remembers (s t : ScanState) : Prop :=
  s.now ≤ t.now ∧ ∀ row ∈ s.cache, t.now ≤ row.createdAt + idempotencyTtl → row ∈ t.cache

theorem Remembers.refl (s : ScanState) : Remembers s s := ⟨le_refl _, fun _ h _ => h⟩

theorem Remembers.trans {s t u : ScanState} (h : Remembers s t) (h' : Remembers t u) :
    Remembers s u :=
  ⟨h.1.trans h'.1, fun row hrow hnow => h'.2 row (h.2 row hrow (h'.1.trans hnow)) hnow⟩

def truthProtocol : Protocol ι ScanState ScanWrite Response where
  inv := fun _ => True
  compat := fun _ _ => True
  rely := fun _ => Remembers
  guar := fun _ => Remembers
  post := fun i origin response writes before => ∀ call, reqs i = .bulkImport call →
    Truthful call origin before response writes
  compat_symm := fun _ => trivial
  rely_refl := fun _ => Remembers.refl
  rely_trans := Remembers.trans
  others := fun _ _ h => h

variable {reqs} {i : ι} {call : ScanCall} {s t : ScanState} {response : Response}
  {writes : List ScanWrite}

theorem remembers_of_swept (hold : ∀ row ∈ sweptBy writes, row.createdAt + idempotencyTtl < s.now) :
    Remembers s (store.applyAll writes s) := by
  refine ⟨(applyAll_now writes s).ge, fun row hrow hnow => mem_applyAll_cache hrow fun hswept => ?_⟩
  rw [applyAll_now] at hnow
  exact absurd (hold row hswept) (Nat.not_lt.mpr hnow)

theorem expired_old {swept : List CacheRow} (h : Expired (truthProtocol reqs) i call s t swept) :
    ∀ row ∈ swept, PastTime call.ctx.workspaceId t.now row := by
  obtain ⟨u, _, hut, hold⟩ := h
  intro row hrow
  exact ⟨(hold row hrow).1, (hold row hrow).2.trans_le hut.1.1⟩

theorem importEnds_answered (h : ImportEnds (truthProtocol reqs) i call s t response writes) :
    Answered call t.now response writes := by
  cases h with
  | cached expired asked => exact .cached (expired_old expired)
  | imported expired missed rows => exact .imported (expired_old expired) rows

theorem importEnds_truthful (h : ImportEnds (truthProtocol reqs) i call s t response writes) :
    Truthful call s t response writes := by
  have hanswered := importEnds_answered h
  refine ⟨hanswered, ?_, ⟨entriesOf writes, applyAll_entries .., hanswered.entries⟩, ?_⟩
  · rw [applyAll_partIds, hanswered.partIds]
  · intro key hkey row hrow hws hrowkey hnow
    cases h with
    | @cached swept report expired asked => exact ⟨report, swept, rfl, rfl⟩
    | @imported swept report left stored expired missed rows =>
      -- The row was still there when the request looked, so it was found.
      obtain ⟨u, hsu, hut, hnone⟩ := missed key hkey
      have hthere : row ∈ u.cache := hsu.1.2 row hrow (hut.1.1.trans hnow)
      have hfresh : row ∉ swept := fun hmem =>
        absurd (expired_old expired row hmem).2 (Nat.not_lt.mpr hnow)
      have hleft : row ∈ (store.applyAll [.sweep swept] u).cache :=
        mem_applyAll_cache hthere (by simpa [sweptBy] using hfresh)
      have hmiss := List.find?_eq_none.mp hnone row hleft
      simp [hws, hrowkey] at hmiss

theorem goesWell_truth (d : Digests ScanImportRow) (i : ι) (s : ScanState) :
    GoesWell store (truthProtocol reqs) i ⟨(reqs i).prog d, [], s⟩ s := by
  have hquiet : ∀ response writes u, Later (truthProtocol reqs) i s u → sweptBy writes = [] →
      (∀ call, reqs i ≠ .bulkImport call) → Ends store (truthProtocol reqs) i s response writes u := by
    intro response writes u hu hswept hnot t ht
    refine ⟨trivial, remembers_of_swept (by simp [hswept]), fun call hcall => ?_⟩
    exact absurd hcall (hnot call)
  unfold GoesWell
  simp only
  cases hreq : reqs i with
  | bulkImport call =>
    refine @wp_bulkImportFromScan _ _ _ _ _ _ (fun _ _ => True) _ (fun _ _ _ _ h => h)
      (fun _ _ _ => trivial) (fun _ _ _ _ _ _ _ _ _ _ _ => trivial) (fun _ _ _ _ => trivial)
      fun response writes u hu hends _ t ht => ?_
    have hlast := hends.later ht
    refine ⟨trivial, remembers_of_swept fun row hrow => ?_, fun other hother => ?_⟩
    · exact (expired_old hlast.swept row hrow).2
    · obtain rfl : call = other := by
        rw [hreq] at hother
        exact ScanRequest.bulkImport.inj hother
      exact importEnds_truthful hlast
  | archive ctx partId =>
    exact wp_archivePartRoute fun mpn at_ u hu => hquiet _ _ u hu rfl (by simp [hreq])
  | restore ctx partId =>
    exact wp_restorePartRoute (fun u hu => hquiet _ _ u hu rfl (by simp [hreq]))
      fun mpn u hu => hquiet _ _ u hu rfl (by simp [hreq])

theorem bears_truth : Bears (truthProtocol reqs) tick :=
  fun _ _ _ => ⟨trivial, fun _ => ⟨Nat.le_add_right _ _, fun _ h _ => h⟩⟩

end Truth

/-- Entries that carry the bag signature. -/
def carrying (workspaceId : Uuid) (signature : String) (entries : List StockEntry) :
    List StockEntry :=
  entries.filter fun e => e.workspaceId = workspaceId ∧ e.bagSignature = some signature

@[simp] theorem carrying_append (workspaceId : Uuid) (signature : String)
    (xs ys : List StockEntry) : carrying workspaceId signature (xs ++ ys) =
      carrying workspaceId signature xs ++ carrying workspaceId signature ys := List.filter_append ..

/-- The workspace of the request with each bag signature of its rows. -/
def ScanRequest.bags : ScanRequest → List (Uuid × String)
  | .bulkImport call =>
    (call.payload.rows.filterMap (·.bagSignature)).map fun signature =>
      (call.ctx.workspaceId, signature)
  | _ => []

/-- No bag is in both requests. -/
def ShareNoBag (r q : ScanRequest) : Prop := ∀ bag ∈ r.bags, bag ∉ q.bags

instance (r q : ScanRequest) : Decidable (ShareNoBag r q) :=
  inferInstanceAs (Decidable (∀ bag ∈ r.bags, bag ∉ q.bags))

theorem mem_bags {req : ScanRequest} {call : ScanCall} (hreq : req = .bulkImport call)
    {row : ScanImportRow} (hrow : row ∈ call.payload.rows) {workspaceId : Uuid}
    (hws : call.ctx.workspaceId = workspaceId) {signature : String}
    (hsignature : row.bagSignature = some signature) : (workspaceId, signature) ∈ req.bags := by
  subst hreq hws
  exact List.mem_map.mpr ⟨signature, List.mem_filterMap.mpr ⟨row, hrow, hsignature⟩, rfl⟩

theorem ShareNoBag.symm {r q : ScanRequest} (h : ShareNoBag r q) : ShareNoBag q r :=
  fun bag hq hr => h bag hr hq

/-- Since `initial` at most one entry was written for each bag. -/
def ImportedOnce (initial s : ScanState) : Prop :=
  ∃ written, s.db.stockEntries = initial.db.stockEntries ++ written ∧
    ∀ workspaceId signature, (carrying workspaceId signature written).length ≤ 1

def Once (req : ScanRequest) (writes : List ScanWrite) (s : ScanState) : Prop :=
  ∀ workspaceId signature, carrying workspaceId signature (entriesOf writes) = [] ∨
    ((workspaceId, signature) ∈ req.bags ∧
      (carrying workspaceId signature (entriesOf writes)).length = 1 ∧
      carrying workspaceId signature s.db.stockEntries = [])

section Bags

variable {ι : Type} (reqs : ι → ScanRequest) (initial : ScanState)

def bagProtocol : Protocol ι ScanState ScanWrite Response where
  inv := ImportedOnce initial
  compat := fun i j => ShareNoBag (reqs i) (reqs j)
  rely := fun i s t => ∀ workspaceId signature, (workspaceId, signature) ∈ (reqs i).bags →
    carrying workspaceId signature t.db.stockEntries =
      carrying workspaceId signature s.db.stockEntries
  guar := fun i s t => ∀ workspaceId signature, (workspaceId, signature) ∉ (reqs i).bags →
    carrying workspaceId signature t.db.stockEntries =
      carrying workspaceId signature s.db.stockEntries
  post := fun _ _ _ _ _ => True
  compat_symm := ShareNoBag.symm
  rely_refl := fun _ _ _ _ _ => rfl
  rely_trans := fun h h' workspaceId signature hcarries =>
    (h' workspaceId signature hcarries).trans (h workspaceId signature hcarries)
  others := fun _ hshare hguar workspaceId signature hcarries =>
    hguar workspaceId signature (hshare _ hcarries)

variable {reqs initial} {i : ι} {s t : ScanState} {writes : List ScanWrite}

theorem carrying_of_priorImport {workspaceId : Uuid} {signature : String}
    (h : s.priorImport workspaceId signature = none) :
    carrying workspaceId signature s.db.stockEntries = [] := by
  have hsorted := List.head?_eq_none_iff.mp h
  have hperm := List.mergeSort_perm (carrying workspaceId signature s.db.stockEntries)
    fun x y => decide (y.occurredAt ≤ x.occurredAt)
  exact (hsorted ▸ hperm).nil_eq.symm

theorem Once.later (h : Once (reqs i) writes s) (ht : Later (bagProtocol reqs initial) i s t) :
    Once (reqs i) writes t := by
  intro workspaceId signature
  rcases h workspaceId signature with hnone | ⟨hcarries, hone, habsent⟩
  · exact Or.inl hnone
  · refine Or.inr ⟨hcarries, hone, ?_⟩
    rw [ht.1 workspaceId signature hcarries]
    exact habsent

theorem once_of_no_entries (h : entriesOf writes = []) : Once (reqs i) writes s :=
  fun _ _ => Or.inl (by rw [h]; rfl)

theorem once_rowEnds {call : ScanCall} (hreq : reqs i = .bulkImport call) {row : ScanImportRow}
    (hrow : row ∈ call.payload.rows) {ctx : Ctx} (hctx : ctx.workspaceId = call.ctx.workspaceId)
    {o : RowOutcome} {left : List ScanWrite} (h : Once (reqs i) writes s)
    (hends : RowEnds (bagProtocol reqs initial) i ctx row writes s o left t) :
    Once (reqs i) (writes ++ left) t := by
  obtain ⟨hlater, hleft, hunseen⟩ := hends
  have hnow : Once (reqs i) writes t := h.later hlater
  cases hleft with
  | nothing => rwa [List.append_nil]
  | @created c part columns described stock id workspace stock_left =>
    have hentries : entriesOf (writes ++ .insertPart part columns ::
        .describePart part.id described :: stock) = entriesOf writes ++ entriesOf stock := by
      rw [entriesOf_append]
      rfl
    intro workspaceId signature
    rw [hentries, carrying_append]
    rcases stock_left.entries with ⟨_, hstock⟩ | ⟨_, e, hstock, hws, _, _, hbag⟩
    · rw [hstock]
      simpa [carrying] using hnow workspaceId signature
    · rw [hstock]
      by_cases hcarry : e.workspaceId = workspaceId ∧ e.bagSignature = some signature
      case neg =>
        have hnone : carrying workspaceId signature [e] = [] := by simp [carrying, hcarry]
        rw [hnone, List.append_nil]
        exact hnow workspaceId signature
      case pos =>
        have hone : carrying workspaceId signature [e] = [e] := by simp [carrying, hcarry]
        have hsignature : row.bagSignature = some signature := hbag ▸ hcarry.2
        have hcarries : (workspaceId, signature) ∈ (reqs i).bags :=
          mem_bags hreq hrow (by rw [← hctx, ← hws, hcarry.1]) hsignature
        -- The bag check found nothing, neither committed nor of the request itself.
        obtain ⟨u, _, hut, hprior⟩ := hunseen (List.cons_ne_nil _ _) signature hsignature
        have habsent := carrying_of_priorImport hprior
        rw [applyAll_entries, carrying_append, ← hws, hcarry.1, List.append_eq_nil_iff] at habsent
        refine Or.inr ⟨hcarries, ?_, ?_⟩
        · rw [habsent.2, hone]
          rfl
        · rw [hut.1 workspaceId signature hcarries]
          exact habsent.1

theorem settles_once {origin : ScanState} {response : Response} (hinv : ImportedOnce initial s)
    (h : Once (reqs i) writes s) :
    Settles store (bagProtocol reqs initial) i origin response writes s := by
  refine ⟨?_, fun workspaceId signature hnot => ?_, trivial⟩
  · obtain ⟨written, hwritten, honce⟩ := hinv
    refine ⟨written ++ entriesOf writes, ?_, fun workspaceId signature => ?_⟩
    · rw [applyAll_entries, hwritten, List.append_assoc]
    · rw [carrying_append]
      rcases h workspaceId signature with hnone | ⟨_, hone, habsent⟩
      · rw [hnone, List.append_nil]
        exact honce workspaceId signature
      · rw [hwritten, carrying_append, List.append_eq_nil_iff] at habsent
        rw [habsent.2, List.nil_append, hone]
  · rw [applyAll_entries, carrying_append]
    rcases h workspaceId signature with hnone | ⟨hcarries, _, _⟩
    · rw [hnone, List.append_nil]
    · exact absurd hcarries hnot

theorem goesWell_once (d : Digests ScanImportRow) (i : ι) (s : ScanState) :
    GoesWell store (bagProtocol reqs initial) i ⟨(reqs i).prog d, [], s⟩ s := by
  have hquiet : ∀ response writes u, entriesOf writes = [] →
      Ends store (bagProtocol reqs initial) i s response writes u := by
    intro response writes u hnone t ht
    exact settles_once ht.2 (once_of_no_entries hnone)
  unfold GoesWell
  simp only
  cases hreq : reqs i with
  | bulkImport call =>
    refine @wp_bulkImportFromScan _ _ _ _ _ _ (Once (reqs i)) _ (fun _ _ _ ht h => h.later ht)
      (fun _ _ _ => once_of_no_entries rfl) ?_ ?_ fun response writes u _ _ honce t ht => ?_
    · intro row hrow ctx hctx writes s o left u honce hends
      exact once_rowEnds hreq hrow hctx honce hends
    · intro writes row t honce
      have hsame : entriesOf (writes ++ [.insertCache row]) = entriesOf writes := by
        rw [entriesOf_append]
        exact List.append_nil _
      unfold Once at honce ⊢
      rwa [hsame]
    · exact settles_once ht.2 (honce.later ht)
  | archive ctx partId => exact wp_archivePartRoute fun mpn at_ u _ => hquiet _ _ u rfl
  | restore ctx partId =>
    exact wp_restorePartRoute (fun u _ => hquiet _ _ u rfl) fun mpn u _ => hquiet _ _ u rfl

theorem bears_once : Bears (bagProtocol reqs initial) tick :=
  fun _ _ hinv => ⟨hinv, fun _ _ _ _ => rfl⟩

theorem importedOnce_refl (s : ScanState) : ImportedOnce s s :=
  ⟨[], (List.append_nil _).symm, fun _ _ => Nat.zero_le _⟩

end Bags

section Runs

variable {ι : Type} [DecidableEq ι] [Fintype ι] (d : Digests ScanImportRow)
  {reqs : ι → ScanRequest} {s : ScanState} {acts : List (Act ι ℕ)} {w : ScanWorld ι}

/-- Every import says what it has left; and a bag is imported once, when no two requests
that carry it are under way at the same time. -/
theorem scanImports_truthful (hrun : Machine.run (scanStep d reqs) (start s) acts = some w) :
    (∀ e ∈ w.log, ∀ call, reqs e.who = .bulkImport call →
      Truthful call e.origin e.before e.result e.writes) ∧
    (Machine.Meets (scanStep d reqs)
        (World.Apart fun i j => ShareNoBag (reqs i) (reqs j)) (start s) acts →
      ImportedOnce s w.committed) := by
  refine ⟨?_, fun hapart => ?_⟩
  · exact (sound_of_any_run bears_truth (fun _ _ => trivial) trivial
      (fun i t _ => goesWell_truth d i t) hrun).log
  · exact (sound_of_run (P := bagProtocol reqs s) bears_once (importedOnce_refl s)
      (fun i t _ => goesWell_once d i t) hapart hrun).inv

end Runs

def sampleSignature (c : Char) : String := String.ofList (List.replicate 64 c)

theorem isBagSignature_replicate {c : Char} (h : c ∈ "0123456789abcdef".toList) :
    IsBagSignature (sampleSignature c) := by
  unfold IsBagSignature sampleSignature
  constructor
  · simp only [String.length_ofList, List.length_replicate]
  · intro x hx
    simp only [String.toList_ofList] at hx
    exact List.eq_of_mem_replicate hx ▸ h

theorem sampleSignature_pattern :
    ∀ signature ∈ some (sampleSignature 'a'), IsBagSignature signature := by
  intro signature hsignature
  rw [← Option.mem_some.mp hsignature]
  exact isBagSignature_replicate (by decide)

def sampleScanRow (mpn : String) (quantity : Option ℕ) : ScanImportRow where
  mpn := mpn
  quantity := quantity
  storageLocationId := none
  lotName := none
  lotSerial := none
  comments := none
  bagSignature := some (sampleSignature 'a')
  rawBagCode := none
  bagSignaturePattern := sampleSignature_pattern

/-- The provider knows the part, and nothing goes wrong. -/
def sampleEvents : RowEvents where
  late := false
  answer := .reply ⟨true, some ⟨none, none, none, none⟩, none, 1⟩
  partRefused := none
  described := .ok ⟨none, none, [], none⟩
  stockRefused := none

def sampleScan (base : ℕ) (provider key : Option String) (mpn : String) (quantity : Option ℕ) :
    ScanRequest :=
  .bulkImport ⟨sampleCtx base, provider, ⟨[sampleScanRow mpn quantity], key⟩, fun _ => sampleEvents⟩

def sampleScanState : ScanState := ⟨⟨sampleDb, []⟩, [], [], [], 0⟩

/-- A run of two requests. -/
def sampleScanRun (first second : ScanRequest) (s : ScanState) (acts : List (Act (Fin 2) ℕ)) :
    Option (ScanWorld (Fin 2)) :=
  Machine.run (scanStep ⟨id, fun _ _ => "content"⟩ ![first, second]) (start s) acts

/-- Two bags of the same code, the second after the first. -/
def sampleTurns {ι : Type} (i j : ι) : List (Act ι ℕ) :=
  .begin i :: List.replicate 15 (.advance i) ++ .begin j :: List.replicate 8 (.advance j)

def sampleOverlap {ι : Type} (i j : ι) : List (Act ι ℕ) :=
  [.begin i, .begin j] ++ List.replicate 8 (.advance j) ++ List.replicate 15 (.advance i) ++
    List.replicate 7 (.advance j)

def sampleRetry {ι : Type} (i j : ι) : List (Act ι ℕ) :=
  .begin i :: List.replicate 13 (.advance i) ++ .env 90000000000 :: .begin j ::
    List.replicate 13 (.advance j)

def sampleBag (base : ℕ) (mpn : String) : ScanRequest :=
  sampleScan base (some "mouser") none mpn (some 5)

def sampleKeyed (base : ℕ) (mpn : String) : ScanRequest :=
  sampleScan base (some "mouser") (some "k") mpn none

def sampleReport : Report := ⟨[], [], 0, "mouser"⟩

def sampleCachedState : ScanState :=
  { sampleScanState with
    cache := [⟨1, "old", sampleReport, 0⟩, ⟨1, "k", sampleReport, 86400000000⟩]
    now := 90000000000 }

theorem scanImports_truthful_sample :
    ∃ w ∈ sampleScanRun (sampleBag 100 "A") (sampleBag 200 "B") sampleScanState
        (sampleTurns 0 1),
      w.log.map (·.result.createdRows.length) = [0, 1] ∧
        (∀ e ∈ w.log, ∀ call, ![sampleBag 100 "A", sampleBag 200 "B"] e.who = .bulkImport call →
          Truthful call e.origin e.before e.result e.writes) ∧
        ImportedOnce sampleScanState w.committed := by
  have hrun : ∃ w ∈ sampleScanRun (sampleBag 100 "A") (sampleBag 200 "B") sampleScanState
      (sampleTurns 0 1), w.log.map (·.result.createdRows.length) = [0, 1] := by decide +kernel
  obtain ⟨w, hw, hcreated⟩ := hrun
  obtain ⟨htruthful, honce⟩ := scanImports_truthful _ hw
  exact ⟨w, hw, hcreated, htruthful, honce (by decide +kernel)⟩

/-- The row of the cache with the explicit key of the request. -/
def ScanRequest.cachedRow (s : ScanState) : ScanRequest → Option CacheRow
  | .bulkImport call => call.explicitKey.bind (s.cached call.ctx.workspaceId)
  | _ => none

def hasEnded (w : ScanWorld (Fin 2)) (i : Fin 2) : Bool :=
  match w.phases i with
  | .ended => true
  | _ => false

/-- Two requests that look for a bag at the same time both import it. -/
example : ∃ w ∈ sampleScanRun (sampleBag 100 "A") (sampleBag 200 "B") sampleScanState
      (sampleOverlap 0 1),
    (carrying 1 (sampleSignature 'a') w.committed.db.stockEntries).length = 2 := by
  decide +kernel

/-- A key is forgotten after 24 hours; an answer from the cache removes the rows past their time;
and a workspace without a provider gets no rows. -/
theorem forgotten_key_imports_again :
    (¬ ∀ first second s acts, ∀ w ∈ sampleScanRun first second s acts, ∀ e ∈ w.log,
      ((![first, second] e.who).cachedRow e.origin).isSome → partIdsOf e.writes = []) ∧
    (¬ ∀ first second s acts, ∀ w ∈ sampleScanRun first second s acts, ∀ e ∈ w.log,
      ((![first, second] e.who).cachedRow e.origin).isSome →
        (store.applyAll e.writes e.before).cache = e.before.cache) ∧
    ¬ ∀ first second s acts, ∀ w ∈ sampleScanRun first second s acts, ∀ i, hasEnded w i →
      ∃ e ∈ w.log, e.who = i := by
  refine ⟨fun h => ?_, fun h => ?_, fun h => ?_⟩
  · have hagain : ∃ w ∈ sampleScanRun (sampleKeyed 100 "A") (sampleKeyed 200 "B") sampleScanState
        (sampleRetry 0 1), ∃ e ∈ w.log,
        ((![sampleKeyed 100 "A", sampleKeyed 200 "B"] e.who).cachedRow e.origin).isSome ∧
          partIdsOf e.writes ≠ [] := by decide +kernel
    obtain ⟨w, hw, e, he, hcached, hne⟩ := hagain
    exact hne (h _ _ _ _ w hw e he hcached)
  · have hswept : ∃ w ∈ sampleScanRun (sampleKeyed 100 "A") (sampleKeyed 200 "B")
        sampleCachedState (.begin 0 :: List.replicate 5 (.advance 0)), ∃ e ∈ w.log,
        ((![sampleKeyed 100 "A", sampleKeyed 200 "B"] e.who).cachedRow e.origin).isSome ∧
          (store.applyAll e.writes e.before).cache ≠ e.before.cache := by decide
    obtain ⟨w, hw, e, he, hcached, hne⟩ := hswept
    exact hne (h _ _ _ _ w hw e he hcached)
  · have hrefused : ∃ w ∈ sampleScanRun (sampleScan 100 none none "A" none) (sampleKeyed 200 "B")
        sampleScanState (.begin 0 :: List.replicate 4 (.advance 0)),
        hasEnded w 0 = true ∧ ¬ ∃ e ∈ w.log, e.who = 0 := by decide
    obtain ⟨w, hw, hended, hnone⟩ := hrefused
    exact hnone (h _ _ _ _ w hw 0 hended)

end StockManager.Scans
