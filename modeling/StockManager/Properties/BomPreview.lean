import Mathlib
import StockManager.Effects.BomRows

/-! # The preview of a BOM import

Preview and commit walk the rows in step: the keys that preview remembers are those of the parts
that commit has created. -/

namespace StockManager.BomImport

variable {host : Host} {db : Db} {workspaceId projectId : Uuid} {row : ParsedRow} {sep : String}
  {cells : List String} {mapping : List BomMappingField}
variable {c c' : CommitState} {rows : List ParsedRow} {autoCreate : Bool}
  {body : List (List String)} {created : List Part} {keys : PreviewCreatedKeys} {p : PreviewState}
  {start : ℤ}

/-- The ids of new parts are in no text of the file and in no CAD key. -/
structure Fresh (host : Host) (db : Db) (body : List (List String)) : Prop where
  idCode : ∀ cells ∈ body, ∀ cell ∈ cells, ∀ n, host.parseUuid (strip cell) ≠ some (host.newId n)
  cadKey : ∀ key ∈ db.cadKeys, ∀ n, key.partId ≠ host.newId n

def withEntry (workspaceId projectId : Uuid) (candidate : Option Part) (row : ParsedRow)
    (state : CommitState) : CommitState :=
  { state with
    db := { state.db with
      entries := state.db.entries ++ [projectEntry workspaceId projectId candidate row state.nextIdx] }
    nextIdx := state.nextIdx + 1
    inserted := state.inserted + 1 }

def withPart (host : Host) (workspaceId : Uuid) (values : AutoCreateValues) (state : CommitState) :
    CommitState :=
  { state with
    db := { state.db with
      parts := state.db.parts ++ [newPart workspaceId (host.newId state.autoCreated) values] }
    autoCreated := state.autoCreated + 1 }

theorem insertEntry_ok {candidate : Option Part} {state next : CommitState}
    (h : insertEntry host workspaceId projectId candidate row state = .ok next) :
    next = withEntry workspaceId projectId candidate row state :=
  (Outcome.pure_ok.mp (Outcome.check_bind_ok.mp h).2).symm

/-- What commit does with a row -/
inductive RowStep (host : Host) (workspaceId projectId : Uuid) (autoCreate : Bool) (row : ParsedRow)
    (state : CommitState) : CommitState → Prop
  | matched (part : Part) (hmatch : matchPart host state.db workspaceId row = some part) :
    RowStep host workspaceId projectId autoCreate row state
      (withEntry workspaceId projectId (some part) row { state with matched := state.matched + 1 })
  | skipped (hmatch : matchPart host state.db workspaceId row = none) (hauto : autoCreate = true)
      (hvalues : autoCreateValues row = none) :
    RowStep host workspaceId projectId autoCreate row state { state with skipped := state.skipped + 1 }
  | created (values : AutoCreateValues) (hmatch : matchPart host state.db workspaceId row = none)
      (hauto : autoCreate = true) (hvalues : autoCreateValues row = some values)
      (hfree : mpnTaken state.db workspaceId values.mpn = false) :
    RowStep host workspaceId projectId autoCreate row state
      (withEntry workspaceId projectId (some (newPart workspaceId (host.newId state.autoCreated) values)) row
        (withPart host workspaceId values state))
  | unmatched (hmatch : matchPart host state.db workspaceId row = none) (hauto : autoCreate = false) :
    RowStep host workspaceId projectId autoCreate row state
      (withEntry workspaceId projectId none row { state with unmatched := state.unmatched + 1 })

theorem commitRow_step {state next : CommitState}
    (h : commitRow host workspaceId projectId autoCreate state row = .ok next) :
    host.refusesQuery row = false ∧
      RowStep host workspaceId projectId autoCreate row state next := by
  obtain ⟨hquery, h⟩ := Outcome.check_bind_ok.mp h
  refine ⟨hquery, ?_⟩
  cases hmatch : matchPart host state.db workspaceId row with
  | some part =>
    rw [hmatch] at h
    obtain rfl := insertEntry_ok h
    exact .matched part hmatch
  | none =>
    rw [hmatch] at h
    cases autoCreate with
    | false =>
      obtain rfl := insertEntry_ok h
      exact .unmatched hmatch rfl
    | true =>
      cases hvalues : autoCreateValues row with
      | none =>
        simp only [if_true, hvalues] at h
        obtain rfl := Outcome.pure_ok.mp h
        exact .skipped hmatch rfl hvalues
      | some values =>
        simp only [if_true, hvalues] at h
        obtain ⟨created, hcreated, h⟩ := Outcome.bind_ok.mp h
        obtain ⟨-, hcreated⟩ := Outcome.check_bind_ok.mp hcreated
        obtain ⟨hfree, hcreated⟩ := Outcome.check_bind_ok.mp hcreated
        obtain rfl := Outcome.pure_ok.mp hcreated
        obtain rfl := insertEntry_ok h
        exact .created values hmatch rfl hvalues hfree

theorem commitRow_error {state : CommitState} {e : BomError}
    (h : commitRow host workspaceId projectId autoCreate state row = .error e) :
    e = .dataError ∨ e = .mpnConflict ∧ matchPart host state.db workspaceId row = none ∧
      ∃ values, autoCreateValues row = some values ∧ mpnTaken state.db workspaceId values.mpn = true := by
  have hinsert {candidate : Option Part} {s : CommitState}
      (h : insertEntry host workspaceId projectId candidate row s = .error e) : e = .dataError := by
    rw [insertEntry, Outcome.check] at h
    split at h
    next => exact absurd h (by simp [bind, Except.bind, pure, Except.pure])
    next => exact (Except.error.inj h).symm
  rw [commitRow, Outcome.check] at h
  split at h
  next =>
    cases hmatch : matchPart host state.db workspaceId row with
    | some part =>
      rw [hmatch] at h
      exact .inl (hinsert h)
    | none =>
      rw [hmatch] at h
      cases autoCreate with
      | false => exact .inl (hinsert h)
      | true =>
        cases hvalues : autoCreateValues row with
        | none =>
          simp only [if_true, hvalues] at h
          exact absurd h (by simp [bind, Except.bind, pure, Except.pure])
        | some values =>
          simp only [if_true, hvalues, autoCreatePart, Outcome.check] at h
          by_cases hrefused : host.refusesPart (newPart workspaceId (host.newId state.autoCreated) values) = false
          · rw [if_pos hrefused] at h
            cases htaken : mpnTaken state.db workspaceId values.mpn with
            | false =>
              rw [htaken, if_pos rfl] at h
              exact .inl (hinsert h)
            | true =>
              rw [htaken, if_neg (by decide)] at h
              exact .inr ⟨(Except.error.inj h).symm, rfl, values, rfl, htaken⟩
          · rw [if_neg hrefused] at h
            exact .inl (Except.error.inj h).symm
  next => exact .inl (Except.error.inj h).symm

/-- The keys that preview remembers are those of the parts created. -/
structure Created (host : Host) (workspaceId : Uuid) (created : List Part) (keys : PreviewCreatedKeys) :
    Prop where
  own : ∀ part ∈ created, part.workspaceId = workspaceId ∧ part.archived = false ∧
    ∃ n, part.id = host.newId n
  numbers : ∀ number, number ∈ keys.internalPartNumbers ↔
    ∃ part ∈ created, part.internalPartNumber = some number
  mpns : ∀ mpn, mpn ∈ keys.mpns ↔ ∃ part ∈ created, part.mpn = some mpn
  names : ∀ name, name ∈ keys.names ↔ ∃ part ∈ created, part.name = name

theorem Created.remember
    (h : Created host workspaceId created keys) (values : AutoCreateValues) (n : ℕ) :
    Created host workspaceId (created ++ [newPart workspaceId (host.newId n) values])
      (rememberPreviewCreated values keys) where
  own := by
    intro part hpart
    rcases List.mem_append.mp hpart with hpart | hpart
    · exact h.own part hpart
    · rw [List.mem_singleton.mp hpart]
      exact ⟨rfl, rfl, n, rfl⟩
  numbers number := by
    simp [rememberPreviewCreated, h.numbers, newPart, or_and_right, exists_or]
  mpns mpn := by
    simp [rememberPreviewCreated, h.mpns, newPart, or_and_right, exists_or]
  names name := by
    simp [rememberPreviewCreated, h.names, newPart, or_and_right, exists_or, eq_comm]

theorem previewRowMatchesCreated_of_hits {body}
    (h : Created host workspaceId created keys) (hfresh : Fresh host db body) (hcells : cells ∈ body)
    (hrow : FromCells cells row) {part : Part} (hpart : part ∈ created)
    (hhits : Hits host db.cadKeys workspaceId row part) :
    previewRowMatchesCreated row keys = true := by
  obtain ⟨-, -, n, hn⟩ := h.own part hpart
  rw [previewRowMatchesCreated, decide_eq_true_iff]
  rcases hhits.2 with hid | ⟨text, -, key, hkey, hid, -⟩ | ⟨number, hnumber, hhit⟩ | ⟨mpn, hmpn, hhit, -⟩ |
    ⟨name, hname, hhit⟩
  · obtain ⟨code, hcode, hparse⟩ := Option.bind_eq_some_iff.mp hid
    obtain ⟨cell, hcell, rfl⟩ := hrow.idCode code hcode
    rw [hn] at hparse
    exact absurd hparse (hfresh.idCode cells hcells cell hcell n)
  · exact absurd (hid.trans hn) (hfresh.cadKey key hkey n)
  · exact .inl ⟨number, hnumber, (h.numbers number).mpr ⟨part, hpart, hhit⟩⟩
  · exact .inr (.inl ⟨mpn, hmpn, (h.mpns mpn).mpr ⟨part, hpart, hhit⟩⟩)
  · exact .inr (.inr ⟨name, hname, (h.names name).mpr ⟨part, hpart, hhit⟩⟩)

theorem hits_of_previewRowMatchesCreated
    (h : Created host workspaceId created keys) (hmatch : previewRowMatchesCreated row keys = true) :
    (∃ part ∈ created, Hits host db.cadKeys workspaceId row part) ∨
      ∃ mpn ∈ row.mpn, ∃ part ∈ created, part.mpn = some mpn := by
  rw [previewRowMatchesCreated, decide_eq_true_iff] at hmatch
  rcases hmatch with ⟨number, hnumber, hmem⟩ | ⟨mpn, hmpn, hmem⟩ | ⟨name, hname, hmem⟩
  · obtain ⟨part, hpart, hhit⟩ := (h.numbers number).mp hmem
    exact .inl ⟨part, hpart, (h.own part hpart).1, .inr (.inr (.inl ⟨number, hnumber, hhit⟩))⟩
  · obtain ⟨part, hpart, hhit⟩ := (h.mpns mpn).mp hmem
    exact .inr ⟨mpn, hmpn, part, hpart, hhit⟩
  · obtain ⟨part, hpart, hhit⟩ := (h.names name).mp hmem
    exact .inl ⟨part, hpart, (h.own part hpart).1, .inr (.inr (.inr (.inr ⟨name, hname, hhit⟩)))⟩

structure InStep (host : Host) (db : Db) (workspaceId : Uuid) (p : PreviewState) (c : CommitState) :
    Prop where
  parts : ∃ created, c.db.parts = db.parts ++ created ∧ Created host workspaceId created p.created
  cadKeys : c.db.cadKeys = db.cadKeys
  created : p.wouldAutoCreate = c.autoCreated
  skipped : p.wouldSkip = c.skipped

theorem autoCreateValues_eq (hrow : FromCells cells row) :
    autoCreateValues row = (row.mpn.or row.part).map fun name =>
      ⟨name, row.mpn, row.manufacturer, row.internalPartNumber⟩ := by
  rw [autoCreateValues, clean_of_stripped hrow.mpn, clean_of_stripped hrow.part,
    clean_of_stripped hrow.manufacturer, clean_of_stripped hrow.internalPartNumber]

theorem InStep.step
    (h : InStep host db workspaceId p c) (hfresh : Fresh host db body) (hcells : cells ∈ body)
    (hrow : FromCells cells row)
    (hrun : commitRow host workspaceId projectId true c row = .ok c') :
    ∃ p', previewRow host db workspaceId p row = .ok p' ∧ InStep host db workspaceId p' c' := by
  obtain ⟨created, hparts, hcreated⟩ := h.parts
  obtain ⟨hquery, hstep⟩ := commitRow_step hrun
  have hnotCreated (hmatch : matchPart host c.db workspaceId row = none)
      (hfree : ∀ mpn ∈ row.mpn, ∀ part ∈ created, part.mpn ≠ some mpn) :
      previewRowMatchesCreated row p.created = false := by
    by_contra hpreview
    rw [Bool.not_eq_false] at hpreview
    rcases @hits_of_previewRowMatchesCreated host db workspaceId row created p.created hcreated hpreview with
      ⟨part, hpart, hhits⟩ |
      ⟨mpn, hmpn, part, hpart, hhit⟩
    · have hsome := matchPart_isSome.mpr ⟨part, by rw [hparts]; exact List.mem_append_right _ hpart,
        by rw [h.cadKeys]; exact hhits⟩
      rw [hmatch] at hsome
      exact absurd hsome (by simp)
    · exact hfree mpn hmpn part hpart hhit
  have hnotMatched (hmatch : matchPart host c.db workspaceId row = none) :
      (matchPart host db workspaceId row).isSome = false := by
    by_contra hsome
    rw [Bool.not_eq_false] at hsome
    obtain ⟨part, hpart, hhits⟩ := matchPart_isSome.mp hsome
    have hsome := matchPart_isSome.mpr ⟨part, by rw [hparts]; exact List.mem_append_left _ hpart,
      by rw [h.cadKeys]; exact hhits⟩
    rw [hmatch] at hsome
    exact absurd hsome (by simp)
  cases hstep with
  | matched part hmatch =>
    refine ⟨p, ?_, ⟨created, hparts, hcreated⟩, h.cadKeys, h.created, h.skipped⟩
    have hsome : (matchPart host c.db workspaceId row).isSome = true := by rw [hmatch]; rfl
    obtain ⟨part, hpart, hhits⟩ := matchPart_isSome.mp hsome
    rw [hparts] at hpart
    rw [h.cadKeys] at hhits
    rw [previewRow]
    rcases List.mem_append.mp hpart with hpart | hpart
    · rw [matchPart_isSome.mpr ⟨part, hpart, hhits⟩, hquery]
      split <;> rfl
    · rw [previewRowMatchesCreated_of_hits hcreated hfresh hcells hrow hpart hhits]
      rfl
  | skipped hmatch _ hvalues =>
    refine ⟨{ p with wouldSkip := p.wouldSkip + 1 }, ?_, ⟨created, hparts, hcreated⟩, h.cadKeys, h.created, ?_⟩
    · have hfree : ∀ mpn ∈ row.mpn, ∀ part ∈ created, part.mpn ≠ some mpn := by
        intro mpn hmpn
        rw [autoCreateValues_eq hrow, Option.mem_def.mp hmpn] at hvalues
        exact absurd hvalues (by simp)
      rw [previewRow, hnotCreated hmatch hfree, hquery, hnotMatched hmatch, hvalues]
      rfl
    · show p.wouldSkip + 1 = c.skipped + 1
      rw [h.skipped]
  | created values hmatch _ hvalues hfree =>
    refine ⟨⟨rememberPreviewCreated values p.created, p.wouldAutoCreate + 1, p.wouldSkip⟩, ?_,
      ⟨created ++ [newPart workspaceId (host.newId c.autoCreated) values], ?_, hcreated.remember values _⟩,
      h.cadKeys, ?_, h.skipped⟩
    · have hmpn : values.mpn = row.mpn := by
        rw [autoCreateValues_eq hrow] at hvalues
        obtain ⟨name, -, rfl⟩ := Option.map_eq_some_iff.mp hvalues
        rfl
      have hfree : ∀ mpn ∈ row.mpn, ∀ part ∈ created, part.mpn ≠ some mpn := by
        intro mpn hmem part hpart heq
        rw [mpnTaken, hmpn, decide_eq_false_iff_not] at hfree
        refine hfree ⟨by rw [Option.mem_def.mp hmem]; rfl, part, ?_, (hcreated.own part hpart).1,
          (hcreated.own part hpart).2.1, by rw [heq, Option.mem_def.mp hmem]⟩
        rw [hparts]
        exact List.mem_append_right _ hpart
      rw [previewRow, hnotCreated hmatch hfree, hquery, hnotMatched hmatch, hvalues]
      rfl
    · show c.db.parts ++ _ = db.parts ++ (created ++ _)
      rw [hparts, List.append_assoc]
    · show p.wouldAutoCreate + 1 = c.autoCreated + 1
      rw [h.created]
  | unmatched _ hauto => exact absurd hauto (by decide)

theorem InStep.run (h : InStep host db workspaceId p c) (hfresh : Fresh host db body)
    (hrows : ∀ row ∈ rows, ∃ cells ∈ body, FromCells cells row)
    (hrun : rows.foldlM (commitRow host workspaceId projectId true) c = .ok c') :
    ∃ p', rows.foldlM (previewRow host db workspaceId) p = .ok p' ∧ InStep host db workspaceId p' c' := by
  induction rows generalizing p c with
  | nil =>
    obtain rfl := Outcome.foldlM_nil_ok.mp hrun
    exact ⟨p, rfl, h⟩
  | cons row rows ih =>
    obtain ⟨m, hfirst, hrest⟩ := Outcome.foldlM_cons_ok.mp hrun
    rw [List.forall_mem_cons] at hrows
    obtain ⟨cells, hcells, hrow⟩ := hrows.1
    obtain ⟨q, hq, hstep⟩ := h.step hfresh hcells hrow hfirst
    obtain ⟨p', hp', hlast⟩ := ih hstep hrows.2 hrest
    exact ⟨p', Outcome.foldlM_cons_ok.mpr ⟨q, hq, hp'⟩, hlast⟩

/-- The entries of the rows that are kept, in row order and numbered from `start` -/
def entriesOf (workspaceId projectId : Uuid) (start : ℤ) (kept : List (ParsedRow × Option Part)) :
    List ProjectEntry :=
  kept.zipIdx.map fun item => projectEntry workspaceId projectId item.1.2 item.1.1 (start + item.2)

structure Imported (db : Db) (workspaceId projectId : Uuid) (start : ℤ) (rows : List ParsedRow)
    (c : CommitState) : Prop where
  entries : ∃ kept : List (ParsedRow × Option Part), (kept.map Prod.fst).Sublist rows ∧
    kept.length = c.inserted ∧
    c.db.entries = db.entries ++ entriesOf workspaceId projectId start kept
  inserted : c.inserted = c.matched + c.unmatched + c.autoCreated
  rows : c.inserted + c.skipped = rows.length

theorem entriesOf_append (start : ℤ) (kept : List (ParsedRow × Option Part)) (item : ParsedRow × Option Part) :
    entriesOf workspaceId projectId start (kept ++ [item]) = entriesOf workspaceId projectId start kept ++
      [projectEntry workspaceId projectId item.2 item.1 (start + kept.length)] := by
  rw [entriesOf, entriesOf, List.zipIdx_append, List.map_append]
  simp

theorem Imported.keep
    (h : Imported db workspaceId projectId start rows c) (hnext : c.nextIdx = start + c.inserted)
    (candidate : Option Part)
    (hentries : c'.db.entries = c.db.entries ++ [projectEntry workspaceId projectId candidate row c.nextIdx])
    (hcounts : c'.inserted = c.inserted + 1 ∧ c'.skipped = c.skipped ∧
      c'.matched + c'.unmatched + c'.autoCreated = c.matched + c.unmatched + c.autoCreated + 1) :
    Imported db workspaceId projectId start (rows ++ [row]) c' := by
  obtain ⟨hinserted, hskipped, htotal⟩ := hcounts
  have hold := h.inserted
  have hrows := h.rows
  refine ⟨?_, by omega, by rw [List.length_append, List.length_singleton]; omega⟩
  obtain ⟨kept, hsub, hlength, hkept⟩ := h.entries
  refine ⟨kept ++ [(row, candidate)], ?_, ?_, ?_⟩
  · rw [List.map_append]
    exact hsub.append (List.Sublist.refl _)
  · rw [List.length_append, List.length_singleton, hlength, hinserted]
  · rw [hentries, hkept, entriesOf_append, hnext, hlength, List.append_assoc]

theorem Imported.step
    (h : Imported db workspaceId projectId start rows c) (hnext : c.nextIdx = start + c.inserted)
    (hstep : RowStep host workspaceId projectId autoCreate row c c') :
    Imported db workspaceId projectId start (rows ++ [row]) c' ∧ c'.nextIdx = start + c'.inserted := by
  cases hstep with
  | matched part _ =>
    refine ⟨h.keep hnext (some part) rfl ⟨rfl, rfl, ?_⟩, ?_⟩
    · simp only [withEntry]
      omega
    · simp only [withEntry]
      omega
  | skipped _ _ _ =>
    obtain ⟨kept, hsub, hkept⟩ := h.entries
    have hrows := h.rows
    refine ⟨⟨⟨kept, hsub.trans (List.sublist_append_left _ _), hkept⟩, h.inserted, ?_⟩, hnext⟩
    show c.inserted + (c.skipped + 1) = _
    rw [List.length_append, List.length_singleton]
    omega
  | created values _ _ _ _ =>
    refine ⟨h.keep hnext (some (newPart workspaceId (host.newId c.autoCreated) values)) rfl
      ⟨rfl, rfl, ?_⟩, ?_⟩
    · simp only [withEntry, withPart]
      omega
    · simp only [withEntry, withPart]
      omega
  | unmatched _ _ =>
    refine ⟨h.keep hnext none rfl ⟨rfl, rfl, ?_⟩, ?_⟩
    · simp only [withEntry]
      omega
    · simp only [withEntry]
      omega

theorem Imported.run {done rows : List ParsedRow}
    (h : Imported db workspaceId projectId start done c) (hnext : c.nextIdx = start + c.inserted)
    (hrun : rows.foldlM (commitRow host workspaceId projectId autoCreate) c = .ok c') :
    Imported db workspaceId projectId start (done ++ rows) c' := by
  induction rows generalizing done c with
  | nil =>
    obtain rfl := Outcome.foldlM_nil_ok.mp hrun
    rwa [List.append_nil]
  | cons row rows ih =>
    obtain ⟨m, hfirst, hrest⟩ := Outcome.foldlM_cons_ok.mp hrun
    obtain ⟨hstep, hnext⟩ := h.step hnext (commitRow_step hfirst).2
    have hlast := ih hstep hnext hrest
    rwa [List.append_assoc] at hlast

theorem lt_nextOrderIndex {entry : ProjectEntry} (hentry : entry ∈ db.entries)
    (hworkspace : entry.workspaceId = workspaceId) (hproject : entry.projectId = projectId) :
    entry.orderIndex < nextOrderIndex db workspaceId projectId := by
  have hmem : entry.orderIndex ∈ (db.entries.filter fun entry =>
      entry.workspaceId = workspaceId ∧ entry.projectId = projectId).map (·.orderIndex) :=
    List.mem_map_of_mem (List.mem_filter.mpr ⟨hentry, decide_eq_true ⟨hworkspace, hproject⟩⟩)
  rw [nextOrderIndex]
  cases hmax : ((db.entries.filter fun entry =>
      entry.workspaceId = workspaceId ∧ entry.projectId = projectId).map (·.orderIndex)).max? with
  | none =>
    rw [List.max?_eq_none_iff.mp hmax] at hmem
    exact absurd hmem List.not_mem_nil
  | some top =>
    have hle := (List.max?_eq_some_iff.mp hmax).2 _ hmem
    rw [Option.getD_some]
    omega

def PartsOf (db : Db) (rows : List ParsedRow) (c : CommitState) : Prop :=
  ∀ part ∈ c.db.parts, part ∈ db.parts ∨ ∃ row ∈ rows, part.mpn = clean row.mpn

theorem PartsOf.step
    (h : PartsOf db rows c) (hstep : RowStep host workspaceId projectId autoCreate row c c') :
    PartsOf db (rows ++ [row]) c' := by
  have hold : PartsOf db (rows ++ [row]) c := fun part hpart => (h part hpart).imp id
    fun ⟨other, hother, hmpn⟩ => ⟨other, List.mem_append_left _ hother, hmpn⟩
  cases hstep with
  | matched | skipped | unmatched => exact hold
  | created values _ _ hvalues _ =>
    intro part hpart
    rcases List.mem_append.mp hpart with hpart | hpart
    · exact hold part hpart
    · obtain ⟨name, -, rfl⟩ := Option.map_eq_some_iff.mp hvalues
      refine .inr ⟨row, by simp, ?_⟩
      rw [List.mem_singleton.mp hpart]
      rfl

/-- The database before any row. -/
def startState (db : Db) (workspaceId projectId : Uuid) : CommitState :=
  ⟨db, nextOrderIndex db workspaceId projectId, 0, 0, 0, 0, 0⟩

/-- A row matches no part when its turn comes and names a manufacturer, for an MPN that an active
part or an earlier row has. -/
def MpnClash (host : Host) (db : Db) (workspaceId projectId : Uuid) (rows : List ParsedRow) : Prop :=
  ∃ before row after c, rows = before ++ row :: after ∧
    before.foldlM (commitRow host workspaceId projectId true)
      (startState db workspaceId projectId) = .ok c ∧
    matchPart host c.db workspaceId row = none ∧ row.manufacturer.isSome = true ∧
    ∃ mpn ∈ row.mpn, (∃ part ∈ db.parts, part.workspaceId = workspaceId ∧ part.archived = false ∧
      part.mpn = some mpn) ∨ ∃ other ∈ before, other.mpn = some mpn

theorem mpnClash_of_taken {values : AutoCreateValues}
    (hparts : PartsOf db rows c) (hrows : ∀ other ∈ rows, Stripped other.mpn) (hrow : FromCells cells row)
    (hbefore : rows.foldlM (commitRow host workspaceId projectId true)
      (startState db workspaceId projectId) = .ok c)
    (hmatch : matchPart host c.db workspaceId row = none) (hvalues : autoCreateValues row = some values)
    (htaken : mpnTaken c.db workspaceId values.mpn = true) (after : List ParsedRow) :
    MpnClash host db workspaceId projectId (rows ++ row :: after) := by
  have hmpn : values.mpn = row.mpn := by
    rw [autoCreateValues_eq hrow] at hvalues
    obtain ⟨name, -, rfl⟩ := Option.map_eq_some_iff.mp hvalues
    rfl
  rw [mpnTaken, hmpn, decide_eq_true_iff] at htaken
  obtain ⟨hsome, part, hpart, hworkspace, hactive, hsame⟩ := htaken
  obtain ⟨mpn, hrowMpn⟩ := Option.isSome_iff_exists.mp hsome
  rw [hrowMpn] at hsame
  refine ⟨rows, row, after, c, rfl, hbefore, hmatch, ?_, mpn, hrowMpn, ?_⟩
  · by_contra hnone
    rw [Bool.not_eq_true, Option.isSome_eq_false_iff, Option.isNone_iff_eq_none] at hnone
    have hhits : (matchPart host c.db workspaceId row).isSome = true := matchPart_isSome.mpr ⟨part, hpart,
      hworkspace, .inr (.inr (.inr (.inl ⟨mpn, hrowMpn, hsame, by simp [hnone]⟩)))⟩
    rw [hmatch] at hhits
    exact absurd hhits (by simp)
  · rcases hparts part hpart with hold | ⟨other, hother, hfrom⟩
    · exact .inl ⟨part, hold, hworkspace, hactive, hsame⟩
    · rw [clean_of_stripped (hrows other hother)] at hfrom
      exact .inr ⟨other, hother, by rw [← hfrom, hsame]⟩

theorem commitRows_refused {done rows : List ParsedRow} (hparts : PartsOf db done c)
    (hdone : done.foldlM (commitRow host workspaceId projectId true)
      (startState db workspaceId projectId) = .ok c)
    (hrows : ∀ row ∈ done ++ rows, ∃ cells, FromCells cells row) :
    (∃ c', rows.foldlM (commitRow host workspaceId projectId true) c = .ok c') ∨
      rows.foldlM (commitRow host workspaceId projectId true) c = .error .dataError ∨
      rows.foldlM (commitRow host workspaceId projectId true) c = .error .mpnConflict ∧
        MpnClash host db workspaceId projectId (done ++ rows) := by
  induction rows generalizing done c with
  | nil => exact .inl ⟨c, rfl⟩
  | cons row rows ih =>
    rw [List.foldlM_cons]
    cases hrun : commitRow host workspaceId projectId true c row with
    | ok m =>
      have hstep := hparts.step (commitRow_step hrun).2
      have hthrough : (done ++ [row]).foldlM (commitRow host workspaceId projectId true)
          (startState db workspaceId projectId) = .ok m := by
        rw [List.foldlM_append, hdone]
        exact Outcome.bind_ok.mpr ⟨c, rfl, Outcome.bind_ok.mpr ⟨m, hrun, rfl⟩⟩
      have hrest := ih hstep hthrough (by rwa [List.append_assoc])
      rwa [List.append_assoc] at hrest
    | error e =>
      rcases commitRow_error hrun with rfl | ⟨rfl, hmatch, values, hvalues, htaken⟩
      · exact .inr (.inl rfl)
      · obtain ⟨cells, hrow⟩ := hrows row (by simp)
        have hstripped : ∀ other ∈ done, Stripped other.mpn := fun other hother =>
          (hrows other (List.mem_append_left _ hother)).choose_spec.mpn
        exact .inr (.inr ⟨rfl, mpnClash_of_taken hparts hstripped hrow hdone hmatch hvalues
          htaken rows⟩)

theorem prescan_ok {digits : Digits} (h : prescan digits mapping sep body = .ok rows) :
    body.mapM (fun cells => applyMapping digits cells mapping sep) = .ok rows := by
  obtain ⟨parsed, hparsed, h⟩ := Outcome.bind_ok.mp h
  obtain ⟨-, h⟩ := Outcome.check_bind_ok.mp h
  rw [hparsed, Outcome.pure_ok.mp h]

theorem fromCells_of_mapM {digits : Digits}
    (h : body.mapM (fun cells => applyMapping digits cells mapping sep) = .ok rows) :
    ∀ row ∈ rows, ∃ cells ∈ body, FromCells cells row := by
  have hsteps := Outcome.mapM_ok h
  clear h
  induction hsteps with
  | nil => exact fun _ h => absurd h List.not_mem_nil
  | @cons cells row body rows hfirst _ ih =>
    intro other hother
    rcases List.mem_cons.mp hother with rfl | hother
    · exact ⟨cells, List.mem_cons_self, applyMapping_fromCells hfirst⟩
    · obtain ⟨cells, hcells, hrow⟩ := ih other hother
      exact ⟨cells, List.mem_cons_of_mem _ hcells, hrow⟩

theorem previewAutoCreateCounts_ok (hmapping : mapping ≠ [])
    (hrows : body.mapM (fun cells => applyMapping host.digits cells mapping sep) = .ok rows)
    (hrun : rows.foldlM (previewRow host db workspaceId) ⟨⟨[], [], []⟩, 0, 0⟩ = .ok p) :
    previewAutoCreateCounts host db workspaceId true mapping sep body =
      .ok (p.wouldAutoCreate, p.wouldSkip) := by
  rw [previewAutoCreateCounts, if_neg (by simp [hmapping])]
  have hsame : body.foldlM (fun state cells => do
      let row ← applyMapping host.digits cells mapping sep
      previewRow host db workspaceId state row) ⟨⟨[], [], []⟩, 0, 0⟩ = .ok p :=
    (Outcome.foldlM_of_mapM hrows).trans hrun
  rw [hsame]
  rfl

/-- Preview counts what commit does, and commit refuses only values that the database refuses and
rows that match nothing while their MPN is taken. -/
theorem commit_previewed (host : Host) (db : Db) (workspaceId projectId : Uuid) (file : BomFile)
    (mapping : List BomMappingField) (sep : String) (hmapping : mapping ≠ [])
    (body : List (List String)) (hbody : bodyRows host file = .ok body) (hfresh : Fresh host db body)
    (rows : List ParsedRow) (hrows : prescan host.digits mapping sep body = .ok rows) :
    (∀ out, commit host db workspaceId projectId file true mapping sep = .ok out →
        preview host db workspaceId file true (some mapping) sep = .ok (out.autoCreated, out.skipped) ∧
        Imported db workspaceId projectId (nextOrderIndex db workspaceId projectId) rows out ∧
        out.inserted + out.skipped = body.length ∧
        ∀ entry ∈ db.entries, entry.workspaceId = workspaceId → entry.projectId = projectId →
          entry.orderIndex < nextOrderIndex db workspaceId projectId) ∧
      ((∃ out, commit host db workspaceId projectId file true mapping sep = .ok out) ∨
        commit host db workspaceId projectId file true mapping sep = .error .dataError ∨
        commit host db workspaceId projectId file true mapping sep = .error .mpnConflict ∧
          MpnClash host db workspaceId projectId rows) := by
  have hcommit : commit host db workspaceId projectId file true mapping sep =
      rows.foldlM (commitRow host workspaceId projectId true)
        (startState db workspaceId projectId) := by
    rw [commit, hbody]
    show prescan host.digits mapping sep body >>= _ = _
    rw [hrows]
    rfl
  have hparsed := prescan_ok hrows
  have hfrom := fromCells_of_mapM hparsed
  rw [hcommit]
  constructor
  · intro out hout
    have hcreated : Created host workspaceId [] ⟨[], [], []⟩ :=
      ⟨by simp, by simp, by simp, by simp⟩
    have hstart : InStep host db workspaceId ⟨⟨[], [], []⟩, 0, 0⟩
        (startState db workspaceId projectId) :=
      ⟨⟨[], (List.append_nil _).symm, hcreated⟩, rfl, rfl, rfl⟩
    obtain ⟨p, hp, hlast⟩ := hstart.run hfresh hfrom hout
    have hempty : Imported db workspaceId projectId (nextOrderIndex db workspaceId projectId) []
        (startState db workspaceId projectId) :=
      ⟨⟨[], List.Sublist.refl _, rfl, (List.append_nil _).symm⟩, rfl, rfl⟩
    have himported := hempty.run (by simp [startState]) hout
    refine ⟨?_, himported, ?_, fun entry => lt_nextOrderIndex⟩
    · rw [preview, hbody]
      show previewAutoCreateCounts host db workspaceId true mapping sep body = _
      rw [previewAutoCreateCounts_ok hmapping hparsed hp, hlast.created, hlast.skipped]
    · rw [himported.rows, List.nil_append, ← (Outcome.mapM_ok hparsed).length_eq]
  · refine @commitRows_refused host db workspaceId projectId _ [] rows (fun part hpart => .inl hpart)
      rfl fun row hrow => ?_
    obtain ⟨cells, -, hcells⟩ := hfrom row hrow
    exact ⟨cells, hcells⟩

theorem head_eq_none (parts : List Part) : parts.head? = none ↔ parts = [] := List.head?_eq_none_iff

theorem head_mem (parts : List Part) (part : Part) (h : parts.head? = some part) : part ∈ parts :=
  List.mem_of_mem_head? h

theorem ascii_keeps (c : Char) (_ : c.toNat < 128) : id c = c := rfl

def sampleDigits : Digits := ⟨id, ascii_keeps⟩

def sampleHost (rows : List (List String)) : Host where
  digits := sampleDigits
  readCsv _ _ := .ok rows
  parseUuid _ := none
  sqlLower := id
  lower := id
  first := List.head?
  first_eq_none := head_eq_none
  first_mem := head_mem
  newId n := n + 100
  refusesQuery _ := false
  refusesPart _ := false
  refusesEntry _ := false

def sampleFile : BomFile := ⟨"", ",", false⟩

def sampleMapping : List BomMappingField := [⟨0, .part⟩, ⟨1, .mpn⟩, ⟨2, .manufacturer⟩]

theorem fresh_sample (rows body : List (List String)) (parts : List Part) :
    Fresh (sampleHost rows) ⟨parts, [], []⟩ body :=
  ⟨fun _ _ _ _ _ h => Option.some_ne_none _ h.symm, fun _ h => absurd h List.not_mem_nil⟩

def sampleRow (part mpn : String) : ParsedRow :=
  { emptyRow with
    part := some part
    mpn := some mpn }

/-- The second row finds the part that the first one creates. -/
theorem commit_previewed_sample :
    preview (sampleHost [["R1", "M1"], ["R2", "M1"]]) ⟨[], [], []⟩ 1 sampleFile true (some sampleMapping) "," =
      .ok (1, 0) := by
  have hrun : ∃ out, commit (sampleHost [["R1", "M1"], ["R2", "M1"]]) ⟨[], [], []⟩ 1 2 sampleFile true
      sampleMapping "," = .ok out ∧ out.autoCreated = 1 ∧ out.skipped = 0 := ⟨_, rfl, rfl, rfl⟩
  obtain ⟨out, hout, hcreated, hskipped⟩ := hrun
  have hsame := (commit_previewed (sampleHost [["R1", "M1"], ["R2", "M1"]]) ⟨[], [], []⟩ 1 2 sampleFile
    sampleMapping "," (by decide) [["R1", "M1"], ["R2", "M1"]] rfl (fresh_sample _ _ _)
    [sampleRow "R1" "M1", sampleRow "R2" "M1"] rfl).1 out hout
  rw [hcreated, hskipped] at hsame
  exact hsame.1

/-- The row names another manufacturer for the MPN of an active part. -/
theorem mpn_conflict : ¬ ∀ (host : Host) (db : Db) (workspaceId projectId : Uuid) (file : BomFile)
    (mapping : List BomMappingField) (sep : String) (body : List (List String)) (rows : List ParsedRow),
    mapping ≠ [] → bodyRows host file = .ok body → Fresh host db body →
      prescan host.digits mapping sep body = .ok rows →
      ∃ out, commit host db workspaceId projectId file true mapping sep = .ok out := by
  intro h
  obtain ⟨out, hout⟩ := h (sampleHost [["R1", "M1", "Acme"]])
    ⟨[⟨7, 1, "M1", none, some "Other", some "M1", false⟩], [], []⟩ 1 2 sampleFile sampleMapping ","
    [["R1", "M1", "Acme"]] [{ sampleRow "R1" "M1" with manufacturer := some "Acme" }] (by decide) rfl
    (fresh_sample _ _ _) rfl
  have hconflict : commit (sampleHost [["R1", "M1", "Acme"]])
      ⟨[⟨7, 1, "M1", none, some "Other", some "M1", false⟩], [], []⟩ 1 2 sampleFile true sampleMapping "," =
      .error .mpnConflict := rfl
  rw [hconflict] at hout
  exact absurd hout (by simp)

end StockManager.BomImport
