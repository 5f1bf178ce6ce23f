import StockManager.Model.BomImport

/-! # What the mapped cells leave in a BOM row -/

namespace StockManager.BomImport

variable {digits : Digits} {sep : String} {cells : List String} {mapping : List BomMappingField}
  {target : MappingTarget} {out row : ParsedRow} {v : String}

/-- The text that a field of the mapping reads -/
def mappedCell (cells : List String) (field : BomMappingField) : Option String :=
  (cellAt cells field.columnIndex).toOption.join

/-- The texts that are read for a target, in the mapping's order -/
def mappedCells (target : MappingTarget) (cells : List String) (mapping : List BomMappingField) :
    List String :=
  (mapping.filter fun field => field.target = target).filterMap (mappedCell cells)

def cellQuantity (digits : Digits) (v : String) : ℤ × Bool := (parseQuantity digits v).toOption.getD (1, true)

def designatorNames (sep v : String) : List String := (splitDesignators v sep).toOption.getD []

theorem mem_mappedCells : v ∈ mappedCells target cells mapping ↔
    ∃ field ∈ mapping, field.target = target ∧ mappedCell cells field = some v := by
  simp [mappedCells, and_assoc]

theorem mappedCell_eq {field : BomMappingField} {cell : Option String}
    (h : cellAt cells field.columnIndex = .ok cell) : mappedCell cells field = cell := by
  rw [mappedCell, h]
  rfl

theorem cellQuantity_eq {parsed : ℤ × Bool} (h : parseQuantity digits v = .ok parsed) :
    cellQuantity digits v = parsed := by
  rw [cellQuantity, h]
  rfl

theorem applyMapping_track {β : Type} (get : ParsedRow → β) (target : MappingTarget) (write : β → String → β)
    (hwrite : ∀ v m n, applyTarget digits sep m target v = .ok n → get n = write (get m) v)
    (hother : ∀ other v m n, other ≠ target → applyTarget digits sep m other v = .ok n → get n = get m)
    (h : mapping.foldlM (applyField digits sep cells) out = .ok row) :
    get row = (mappedCells target cells mapping).foldl write (get out) := by
  induction mapping generalizing out with
  | nil =>
    rw [← Outcome.foldlM_nil_ok.mp h]
    rfl
  | cons field rest ih =>
    obtain ⟨next, hstep, hrest⟩ := Outcome.foldlM_cons_ok.mp h
    obtain ⟨cell, hcell, hstep⟩ := Outcome.bind_ok.mp hstep
    have hmapped := mappedCell_eq hcell
    rw [ih hrest, mappedCells, mappedCells, List.filter_cons]
    cases cell with
    | none =>
      rw [← Outcome.pure_ok.mp hstep]
      split <;> simp [hmapped]
    | some v =>
      by_cases htarget : field.target = target
      · have hnext := hwrite v out next (htarget ▸ hstep)
        simp [htarget, hmapped, hnext]
      · simp [htarget, hother _ v out next htarget hstep]

theorem foldl_last {α β : Type} (f : α → β) (l : List α) (b : β) :
    l.foldl (fun _ a => f a) b = (l.getLast?.map f).getD b := by
  induction l generalizing b with
  | nil => rfl
  | cons a l ih =>
    rw [List.foldl_cons, ih, List.getLast?_cons]
    cases l.getLast? <;> rfl

theorem applyMapping_quantity (h : applyMapping digits cells mapping sep = .ok row) :
    row.quantity =
      ((mappedCells .quantity cells mapping).getLast?.map fun v => (cellQuantity digits v).1).getD 1 := by
  rw [← foldl_last]
  refine applyMapping_track (·.quantity) .quantity _ (fun v m n hrun => ?_) (fun other v m n hne hrun => ?_) h
  · obtain ⟨parsed, hparsed, rfl⟩ := Outcome.map_ok.mp hrun
    rw [cellQuantity_eq hparsed]
  · cases other with
    | quantity => exact absurd rfl hne
    | designators =>
      obtain ⟨names, -, rfl⟩ := Outcome.map_ok.mp hrun
      rfl
    | _ =>
      rw [← Except.ok.inj hrun]

theorem applyMapping_designators (h : applyMapping digits cells mapping sep = .ok row) :
    row.designators = (mappedCells .designators cells mapping).getLast?.map (designatorNames sep) := by
  have hlast := foldl_last (fun v => some (designatorNames sep v)) (mappedCells .designators cells mapping) none
  have htrack : row.designators = (mappedCells .designators cells mapping).foldl
      (fun _ v => some (designatorNames sep v)) none := by
    refine applyMapping_track (·.designators) .designators _ (fun v m n hrun => ?_)
      (fun other v m n hne hrun => ?_) h
    · obtain ⟨names, hnames, rfl⟩ := Outcome.map_ok.mp hrun
      rw [designatorNames, hnames]
      rfl
    · cases other with
      | designators => exact absurd rfl hne
      | quantity =>
        obtain ⟨parsed, -, rfl⟩ := Outcome.map_ok.mp hrun
        rfl
      | _ =>
        rw [← Except.ok.inj hrun]
  rw [htrack, hlast]
  cases (mappedCells .designators cells mapping).getLast? <;> rfl

theorem ne_empty_of_invalid (h : (cellQuantity digits v).2 = false) : v ≠ "" := by
  rintro rfl
  have hblank : cellQuantity digits "" = (1, true) := cellQuantity_eq (if_pos (by decide))
  rw [hblank] at h
  exact absurd h (by decide)

theorem applyMapping_quantityRaw (h : applyMapping digits cells mapping sep = .ok row) :
    row.quantityRaw ≠ "" ↔ ∃ v ∈ mappedCells .quantity cells mapping, (cellQuantity digits v).2 = false := by
  have htrack : row.quantityRaw = (mappedCells .quantity cells mapping).foldl
      (fun old v => if (cellQuantity digits v).2 then old else v) "" := by
    refine applyMapping_track (·.quantityRaw) .quantity _ (fun v m n hrun => ?_)
      (fun other v m n hne hrun => ?_) h
    · obtain ⟨parsed, hparsed, rfl⟩ := Outcome.map_ok.mp hrun
      rw [cellQuantity_eq hparsed]
    · cases other with
      | quantity => exact absurd rfl hne
      | designators =>
        obtain ⟨names, -, rfl⟩ := Outcome.map_ok.mp hrun
        rfl
      | _ =>
        rw [← Except.ok.inj hrun]
  rw [htrack]
  -- the last invalid text stays
  induction mappedCells .quantity cells mapping using List.reverseRecOn with
  | nil => simp
  | append_singleton texts v ih =>
    rw [List.foldl_append, List.foldl_cons, List.foldl_nil]
    cases hvalid : (cellQuantity digits v).2 with
    | true => simp [ih, hvalid]
    | false => simp [ne_empty_of_invalid hvalid, hvalid]

theorem exists_cellAt {columnIndex : ℤ} :
    (∃ cell, cellAt cells columnIndex = .ok cell) ↔ -(cells.length : ℤ) ≤ columnIndex := by
  rw [cellAt]
  split_ifs <;> simp <;> omega

theorem exists_splitDesignators : (∃ names, splitDesignators v sep = .ok names) ↔ (v ≠ "" → sep ≠ "") := by
  rw [splitDesignators]
  split_ifs <;> simp [*]

/-- No cell of the row raises. -/
structure Reads (digits : Digits) (cells : List String) (mapping : List BomMappingField) (sep : String) :
    Prop where
  inRange : ∀ field ∈ mapping, -(cells.length : ℤ) ≤ field.columnIndex
  separated : ∀ v ∈ mappedCells .designators cells mapping, v ≠ "" → sep ≠ ""
  numbers : ∀ v ∈ mappedCells .quantity cells mapping, ∃ parsed, parseQuantity digits v = .ok parsed

theorem exists_applyTarget : (∃ next, applyTarget digits sep out target v = .ok next) ↔
    (target = .designators → v ≠ "" → sep ≠ "") ∧
      (target = .quantity → ∃ parsed, parseQuantity digits v = .ok parsed) := by
  cases target with
  | designators =>
    rw [applyTarget, ← exists_splitDesignators]
    cases splitDesignators v sep <;> simp [Except.map]
  | quantity =>
    rw [applyTarget]
    cases parseQuantity digits v <;> simp [Except.map]
  | _ => simp [applyTarget]

theorem exists_applyField {field : BomMappingField} :
    (∃ next, applyField digits sep cells out field = .ok next) ↔
      -(cells.length : ℤ) ≤ field.columnIndex ∧ ∀ v, mappedCell cells field = some v →
        (field.target = .designators → v ≠ "" → sep ≠ "") ∧
          (field.target = .quantity → ∃ parsed, parseQuantity digits v = .ok parsed) := by
  rw [← exists_cellAt, applyField]
  cases hcell : cellAt cells field.columnIndex with
  | error e => simp [bind, Except.bind]
  | ok cell =>
    rw [mappedCell_eq hcell]
    cases cell with
    | none => simp [bind, Except.bind, pure, Except.pure]
    | some v =>
      have htarget := @exists_applyTarget digits sep field.target out v
      simpa [bind, Except.bind] using htarget

/-- A row is read exactly when none of its cells raises. -/
theorem exists_applyMapping :
    (∃ row, applyMapping digits cells mapping sep = .ok row) ↔ Reads digits cells mapping sep := by
  have hfields (out : ParsedRow) : (∃ row, mapping.foldlM (applyField digits sep cells) out = .ok row) ↔
      ∀ field ∈ mapping, -(cells.length : ℤ) ≤ field.columnIndex ∧ ∀ v, mappedCell cells field = some v →
        (field.target = .designators → v ≠ "" → sep ≠ "") ∧
          (field.target = .quantity → ∃ parsed, parseQuantity digits v = .ok parsed) := by
    induction mapping generalizing out with
    | nil => simp [pure, Except.pure]
    | cons field rest ih =>
      rw [List.forall_mem_cons, ← @exists_applyField digits sep cells out]
      constructor
      · intro ⟨row, h⟩
        obtain ⟨next, hstep, hrest⟩ := Outcome.foldlM_cons_ok.mp h
        exact ⟨⟨next, hstep⟩, (ih next).mp ⟨row, hrest⟩⟩
      · rintro ⟨⟨next, hstep⟩, hrest⟩
        obtain ⟨row, hrow⟩ := (ih next).mpr hrest
        exact ⟨row, Outcome.foldlM_cons_ok.mpr ⟨next, hstep, hrow⟩⟩
  rw [applyMapping, hfields]
  constructor
  · intro h
    refine ⟨fun field hfield => (h field hfield).1, fun v hv => ?_, fun v hv => ?_⟩
    · obtain ⟨field, hfield, htarget, hcell⟩ := mem_mappedCells.mp hv
      exact ((h field hfield).2 v hcell).1 htarget
    · obtain ⟨field, hfield, htarget, hcell⟩ := mem_mappedCells.mp hv
      exact ((h field hfield).2 v hcell).2 htarget
  · intro h field hfield
    refine ⟨h.inRange field hfield, fun v hcell => ⟨fun htarget => ?_, fun htarget => ?_⟩⟩
    · exact h.separated v (mem_mappedCells.mpr ⟨field, hfield, htarget, hcell⟩)
    · exact h.numbers v (mem_mappedCells.mpr ⟨field, hfield, htarget, hcell⟩)

end StockManager.BomImport
