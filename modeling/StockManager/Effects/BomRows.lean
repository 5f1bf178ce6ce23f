import StockManager.Model.BomImport

/-! # What a BOM row carries and which parts it matches -/

namespace StockManager.BomImport

variable {host : Host} {db : Db} {workspaceId projectId : Uuid} {row : ParsedRow} {sep : String}
  {cells : List String} {mapping : List BomMappingField}

def Stripped (value : Option String) : Prop := ∀ text ∈ value, stripped text = some text

theorem stripped_stripped (v : String) : Stripped (stripped v) := by
  intro text htext
  rw [stripped] at htext
  split at htext
  next => exact absurd htext (by simp)
  next hne =>
    obtain rfl := Option.some.inj htext
    rw [stripped, strip_strip, if_neg hne]

theorem clean_of_stripped {value : Option String} (h : Stripped value) : clean value = value := by
  cases value with
  | none => decide
  | some text => exact h text rfl

/-- What the cells of a row leave in its fields -/
structure FromCells (cells : List String) (row : ParsedRow) : Prop where
  part : Stripped row.part
  mpn : Stripped row.mpn
  manufacturer : Stripped row.manufacturer
  internalPartNumber : Stripped row.internalPartNumber
  idCode : ∀ code ∈ row.idCode, ∃ cell ∈ cells, code = strip cell

theorem stripped_none : Stripped none := fun _ h => absurd h (by simp)

theorem fromCells_emptyRow (cells : List String) : FromCells cells emptyRow :=
  ⟨stripped_none, stripped_none, stripped_none, stripped_none, fun _ h => absurd h (by simp [emptyRow])⟩

theorem cellAt_mem {columnIndex : ℤ} {v : String} (h : cellAt cells columnIndex = .ok (some v)) :
    v ∈ cells := by
  rw [cellAt] at h
  split_ifs at h
  · exact absurd h (by simp)
  · exact List.mem_of_getElem? (Except.ok.inj h)
  · exact List.mem_of_getElem? (Except.ok.inj h)

theorem FromCells.target {digits : Digits} {target : MappingTarget} {v : String} {out : ParsedRow}
    (h : FromCells cells row) (hv : v ∈ cells)
    (hrun : applyTarget digits sep row target v = .ok out) : FromCells cells out := by
  cases target with
  | quantity =>
    obtain ⟨parsed, -, rfl⟩ := Outcome.map_ok.mp hrun
    exact ⟨h.part, h.mpn, h.manufacturer, h.internalPartNumber, h.idCode⟩
  | designators =>
    obtain ⟨names, -, rfl⟩ := Outcome.map_ok.mp hrun
    exact ⟨h.part, h.mpn, h.manufacturer, h.internalPartNumber, h.idCode⟩
  | part =>
    rw [← Except.ok.inj hrun]
    exact ⟨stripped_stripped v, h.mpn, h.manufacturer, h.internalPartNumber, h.idCode⟩
  | mpn =>
    rw [← Except.ok.inj hrun]
    exact ⟨h.part, stripped_stripped v, h.manufacturer, h.internalPartNumber, h.idCode⟩
  | manufacturer =>
    rw [← Except.ok.inj hrun]
    exact ⟨h.part, h.mpn, stripped_stripped v, h.internalPartNumber, h.idCode⟩
  | internalPartNumber =>
    rw [← Except.ok.inj hrun]
    exact ⟨h.part, h.mpn, h.manufacturer, stripped_stripped v, h.idCode⟩
  | idCode =>
    rw [← Except.ok.inj hrun]
    refine ⟨h.part, h.mpn, h.manufacturer, h.internalPartNumber, fun code hcode => ⟨v, hv, ?_⟩⟩
    dsimp only at hcode
    rw [stripped] at hcode
    split at hcode
    next => exact absurd hcode (by simp)
    next => exact (Option.some.inj hcode).symm
  | ignore | comments | footprint | cadKey | dnp =>
    rw [← Except.ok.inj hrun]
    exact ⟨h.part, h.mpn, h.manufacturer, h.internalPartNumber, h.idCode⟩

theorem applyMapping_fromCells {digits : Digits} (h : applyMapping digits cells mapping sep = .ok row) :
    FromCells cells row := by
  refine Outcome.foldlM_ok_induction (P := FromCells cells) (fun field _ m n hm hstep => ?_)
    (fromCells_emptyRow cells) h
  obtain ⟨cell, hcell, hrun⟩ := Outcome.bind_ok.mp hstep
  cases cell with
  | none => exact Outcome.pure_ok.mp hrun ▸ hm
  | some v => exact hm.target (cellAt_mem hcell) hrun

def Hits (host : Host) (cadKeys : List PartCadKey) (workspaceId : Uuid) (row : ParsedRow) (part : Part) :
    Prop :=
  part.workspaceId = workspaceId ∧
    (row.idCode.bind host.parseUuid = some part.id ∨
      (∃ text ∈ row.cadKey, ∃ key ∈ cadKeys,
        key.partId = part.id ∧ key.workspaceId = workspaceId ∧ key.cadKey = text) ∨
      (∃ number ∈ row.internalPartNumber, part.internalPartNumber = some number) ∨
      (∃ mpn ∈ row.mpn, part.mpn = some mpn ∧
        ∀ name ∈ row.manufacturer, part.manufacturer.map host.sqlLower = some (host.lower name)) ∨
      ∃ name ∈ row.part, part.name = name)

theorem first_isSome (host : Host) (parts : List Part) :
    (host.first parts).isSome = true ↔ ∃ part, part ∈ parts := by
  rw [Option.isSome_iff_ne_none, ne_eq, host.first_eq_none, List.eq_nil_iff_forall_not_mem]
  push Not
  exact Iff.rfl

theorem isSome_bind_iff {α : Type} {value : Option String} {f : String → Option α} {p : String → Prop}
    (h : ∀ text, (f text).isSome = true ↔ p text) :
    (value.bind f).isSome = true ↔ ∃ text ∈ value, p text := by
  cases value with
  | none => simp
  | some text => simp [h]

/-- A row matches exactly when some part of the catalogue answers to one of its keys. -/
theorem matchPart_isSome : (matchPart host db workspaceId row).isSome = true ↔
    ∃ part ∈ db.parts, Hits host db.cadKeys workspaceId row part := by
  have hid (code : String) : (matchIdCode host db workspaceId code).isSome = true ↔
      ∃ part ∈ db.parts, host.parseUuid code = some part.id ∧ part.workspaceId = workspaceId := by
    rw [matchIdCode]
    cases host.parseUuid code with
    | none => simp
    | some id =>
      rw [Option.bind_some, List.find?_isSome]
      refine exists_congr fun part => and_congr_right fun _ => ?_
      rw [decide_eq_true_eq, Option.some.injEq, @eq_comm _ part.id]
  have hcad (text : String) : (matchCadKey host db workspaceId text).isSome = true ↔
      ∃ part ∈ db.parts, part.workspaceId = workspaceId ∧ ∃ key ∈ db.cadKeys,
        key.partId = part.id ∧ key.workspaceId = workspaceId ∧ key.cadKey = text := by
    rw [matchCadKey, first_isSome]
    simp [List.mem_filter]
  have hnumber (number : String) : (matchInternalPartNumber host db workspaceId number).isSome = true ↔
      ∃ part ∈ db.parts, part.workspaceId = workspaceId ∧ part.internalPartNumber = some number := by
    rw [matchInternalPartNumber, first_isSome]
    simp [List.mem_filter]
  have hmpn (mpn : String) : (matchMpn host db workspaceId mpn row.manufacturer).isSome = true ↔
      ∃ part ∈ db.parts, part.workspaceId = workspaceId ∧ part.mpn = some mpn ∧
        ∀ name ∈ row.manufacturer, part.manufacturer.map host.sqlLower = some (host.lower name) := by
    rw [matchMpn, first_isSome]
    simp [List.mem_filter]
  have hname (name : String) : (matchName host db workspaceId name).isSome = true ↔
      ∃ part ∈ db.parts, part.workspaceId = workspaceId ∧ part.name = name := by
    rw [matchName, first_isSome]
    simp [List.mem_filter]
  rw [matchPart]
  simp only [Option.isSome_or, Bool.or_eq_true, isSome_bind_iff hid, isSome_bind_iff hcad,
    isSome_bind_iff hnumber, isSome_bind_iff hmpn, isSome_bind_iff hname, Hits]
  constructor
  · rintro (⟨code, hcode, part, hpart, hquery, hworkspace⟩ | ⟨text, htext, part, hpart, hworkspace, hquery⟩ |
      ⟨text, htext, part, hpart, hworkspace, hquery⟩ | ⟨text, htext, part, hpart, hworkspace, hquery⟩ |
      ⟨text, htext, part, hpart, hworkspace, hquery⟩)
    · exact ⟨part, hpart, hworkspace, .inl (by rw [Option.mem_def.mp hcode]; exact hquery)⟩
    · exact ⟨part, hpart, hworkspace, .inr (.inl ⟨text, htext, hquery⟩)⟩
    · exact ⟨part, hpart, hworkspace, .inr (.inr (.inl ⟨text, htext, hquery⟩))⟩
    · exact ⟨part, hpart, hworkspace, .inr (.inr (.inr (.inl ⟨text, htext, hquery⟩)))⟩
    · exact ⟨part, hpart, hworkspace, .inr (.inr (.inr (.inr ⟨text, htext, hquery⟩)))⟩
  · rintro ⟨part, hpart, hworkspace, hquery | ⟨text, htext, hquery⟩ | ⟨text, htext, hquery⟩ |
      ⟨text, htext, hquery⟩ | ⟨text, htext, hquery⟩⟩
    · obtain ⟨code, hcode, hparse⟩ := Option.bind_eq_some_iff.mp hquery
      exact .inl ⟨code, hcode, part, hpart, hparse, hworkspace⟩
    · exact .inr (.inl ⟨text, htext, part, hpart, hworkspace, hquery⟩)
    · exact .inr (.inr (.inl ⟨text, htext, part, hpart, hworkspace, hquery⟩))
    · exact .inr (.inr (.inr (.inl ⟨text, htext, part, hpart, hworkspace, hquery⟩)))
    · exact .inr (.inr (.inr (.inr ⟨text, htext, part, hpart, hworkspace, hquery⟩)))

end StockManager.BomImport
