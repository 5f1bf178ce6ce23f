import StockManager.Effects.MappedCells

/-! # Quantities of BOM imports -/

namespace StockManager.BomImport

open Binary64 FloatLiteral

variable {digits : Digits} {sep : String} {cells : List String} {mapping : List BomMappingField}
  {row : ParsedRow} {v : String} {q : ℚ}

theorem quantityText_blank (h : strip v = "") : FloatLiteral.parse (quantityText digits v) = none := by
  rw [quantityText, h]
  rfl

theorem parseQuantity_finite (h : FloatLiteral.parse (quantityText digits v) = some (.finite q))
    (hq : |nearest q| < 2 ^ 1024) : parseQuantity digits v =
      .ok (if (nearest q).den = 1 then (max 0 (nearest q).num, true) else (0, false)) := by
  have hblank : strip v ≠ "" := fun hblank => by
    rw [quantityText_blank hblank] at h
    exact absurd h (by simp)
  rw [parseQuantity, if_neg hblank, cellDouble, h, Option.map_some]
  dsimp only
  rw [toDouble, ofRat, if_neg (not_le.mpr hq), quantityOf]

theorem parseQuantity_none (h : FloatLiteral.parse (quantityText digits v) = none) :
    parseQuantity digits v = .ok (1, true) := by
  rw [parseQuantity, cellDouble, h]
  split <;> rfl

theorem exists_parseQuantity : (∃ parsed, parseQuantity digits v = .ok parsed) ↔
    ∀ literal, FloatLiteral.parse (quantityText digits v) = some literal →
      ∃ q, literal = .finite q ∧ |nearest q| < 2 ^ 1024 := by
  constructor
  · intro ⟨parsed, hparsed⟩ literal hliteral
    have hblank : strip v ≠ "" := fun hblank => by
      rw [quantityText_blank hblank] at hliteral
      exact absurd hliteral (by simp)
    rw [parseQuantity, if_neg hblank, cellDouble, hliteral, Option.map_some] at hparsed
    dsimp only at hparsed
    cases literal with
    | finite q =>
      refine ⟨q, rfl, not_le.mp fun hlarge => ?_⟩
      rw [toDouble, ofRat, if_pos hlarge] at hparsed
      exact absurd hparsed (by simp [quantityOf])
    | infinite negative => exact absurd hparsed (by simp [toDouble, quantityOf])
    | nan => exact absurd hparsed (by simp [toDouble, quantityOf])
  · intro h
    cases hliteral : FloatLiteral.parse (quantityText digits v) with
    | none => exact ⟨_, parseQuantity_none hliteral⟩
    | some literal =>
      obtain ⟨q, rfl, hq⟩ := h literal hliteral
      exact ⟨_, parseQuantity_finite hliteral hq⟩

theorem cellQuantity_invalid (h : ∃ parsed, parseQuantity digits v = .ok parsed) :
    (cellQuantity digits v).2 = false ↔
      ∃ q, FloatLiteral.parse (quantityText digits v) = some (.finite q) ∧ (nearest q).den ≠ 1 := by
  cases hliteral : FloatLiteral.parse (quantityText digits v) with
  | none =>
    rw [cellQuantity_eq (parseQuantity_none hliteral)]
    simp
  | some literal =>
    obtain ⟨q, rfl, hq⟩ := exists_parseQuantity.mp h literal hliteral
    rw [cellQuantity_eq (parseQuantity_finite hliteral hq)]
    by_cases hwhole : (nearest q).den = 1 <;> simp [hwhole]

theorem cellQuantity_integer {n : ℤ} (h : ∃ parsed, parseQuantity digits v = .ok parsed)
    (hv : IntegerLiteral (quantityText digits v) n) (hn : n < 2 ^ 53) :
    (cellQuantity digits v).1 = max 0 n := by
  have hliteral := parse_integerLiteral hv
  obtain ⟨q, hq, hfinite⟩ := exists_parseQuantity.mp h _ hliteral
  obtain rfl := Literal.finite.inj hq
  rw [cellQuantity_eq (parseQuantity_finite hliteral hfinite)]
  obtain ⟨m, hm⟩ := nearest_intCast_int n
  rw [hm, Rat.den_intCast, if_pos rfl, Rat.num_intCast]
  by_cases hneg : n ≤ 0
  · have hle := nearest_nonpos (q := n) (by exact_mod_cast hneg)
    rw [hm] at hle
    have hm : m ≤ 0 := by exact_mod_cast hle
    show max 0 m = max 0 n
    omega
  · have hexact := nearest_intCast (abs_lt.mpr ⟨by omega, hn⟩)
    rw [hm] at hexact
    have hmn : m = n := by exact_mod_cast hexact
    rw [hmn]

/-- A numeric literal whose number is not whole -/
def Fractional (digits : Digits) (v : String) : Prop :=
  ∃ q : ℚ, FloatLiteral.parse (quantityText digits v) = some (.finite q) ∧ q.den ≠ 1

def designatorCount (sep : String) (cells : List String) (mapping : List BomMappingField) : ℕ :=
  (((mappedCells .designators cells mapping).getLast?.map (designatorNames sep)).getD []).length

/-- The prescan passes the row, its entry gets this quantity, and the column holds it. -/
structure Stores (row : ParsedRow) (quantity : ℤ) : Prop where
  passes : row.quantityRaw = ""
  entry : ∀ workspaceId projectId candidate orderIndex,
    (projectEntry workspaceId projectId candidate row orderIndex).quantity = quantity
  fits : quantity < quantityLimit

/-- The quantity of a row is imported exactly. -/
structure ImportedExactly (digits : Digits) (cells : List String) (mapping : List BomMappingField)
    (sep : String) : Prop where
  reads : ∃ row, applyMapping digits cells mapping sep = .ok row
  refused : (∃ v ∈ mappedCells .quantity cells mapping, Fractional digits v) →
    ∀ body, cells ∈ body → ∃ e, prescan digits mapping sep body = .error e
  integer : (¬∃ v ∈ mappedCells .quantity cells mapping, Fractional digits v) →
    ∀ row, applyMapping digits cells mapping sep = .ok row →
      ∀ v ∈ (mappedCells .quantity cells mapping).getLast?, ∀ n,
        IntegerLiteral (quantityText digits v) n → Stores row (max 0 n)
  unset : (¬∃ v ∈ mappedCells .quantity cells mapping, Fractional digits v) →
    ∀ row, applyMapping digits cells mapping sep = .ok row →
      (∀ v ∈ (mappedCells .quantity cells mapping).getLast?, strip v = "") →
        Stores row (if designatorCount sep cells mapping = 0 then 1 else designatorCount sep cells mapping)

/-- The rows whose quantities are imported exactly -/
structure Importable (digits : Digits) (cells : List String) (mapping : List BomMappingField)
    (sep : String) : Prop where
  inRange : ∀ field ∈ mapping, -(cells.length : ℤ) ≤ field.columnIndex
  separated : ∀ v ∈ mappedCells .designators cells mapping, v ≠ "" → sep ≠ ""
  finite : ∀ v ∈ mappedCells .quantity cells mapping, ∀ literal,
    FloatLiteral.parse (quantityText digits v) = some literal →
      ∃ q, literal = .finite q ∧ |nearest q| < 2 ^ 1024
  fraction : (∃ v ∈ mappedCells .quantity cells mapping, Fractional digits v) →
    ∃ v ∈ mappedCells .quantity cells mapping, ∃ q,
      FloatLiteral.parse (quantityText digits v) = some (.finite q) ∧ (nearest q).den ≠ 1
  integer : (¬∃ v ∈ mappedCells .quantity cells mapping, Fractional digits v) →
    ∀ v ∈ (mappedCells .quantity cells mapping).getLast?, ∀ n,
      IntegerLiteral (quantityText digits v) n →
        n < quantityLimit ∧ (n = 1 → designatorCount sep cells mapping ≤ 1)
  unset : (¬∃ v ∈ mappedCells .quantity cells mapping, Fractional digits v) →
    (∀ v ∈ (mappedCells .quantity cells mapping).getLast?, strip v = "") →
      designatorCount sep cells mapping < quantityLimit

theorem Reads.quantityRaw (hreads : Reads digits cells mapping sep)
    (h : applyMapping digits cells mapping sep = .ok row) : row.quantityRaw ≠ "" ↔
      ∃ v ∈ mappedCells .quantity cells mapping, ∃ q,
        FloatLiteral.parse (quantityText digits v) = some (.finite q) ∧ (nearest q).den ≠ 1 := by
  rw [applyMapping_quantityRaw h]
  exact exists_congr fun v => and_congr_right fun hv => cellQuantity_invalid (hreads.numbers v hv)

theorem Reads.passes (hreads : Reads digits cells mapping sep)
    (h : applyMapping digits cells mapping sep = .ok row)
    (hwhole : ¬∃ v ∈ mappedCells .quantity cells mapping, Fractional digits v) : row.quantityRaw = "" := by
  by_contra hraw
  obtain ⟨v, hv, q, hliteral, hnearest⟩ := (hreads.quantityRaw h).mp hraw
  refine hwhole ⟨v, hv, q, hliteral, fun hden => hnearest ?_⟩
  obtain ⟨m, hm⟩ := nearest_intCast_int q.num
  rw [Rat.coe_int_num_of_den_eq_one hden] at hm
  rw [hm, Rat.den_intCast]

theorem designatorCount_eq (h : applyMapping digits cells mapping sep = .ok row) :
    designatorCount sep cells mapping = (row.designators.getD []).length := by
  rw [designatorCount, applyMapping_designators h]

theorem entryQuantity_eq (h : applyMapping digits cells mapping sep = .ok row) : entryQuantity row =
    if row.quantity = 1 ∧ designatorCount sep cells mapping ≠ 0 then (designatorCount sep cells mapping : ℤ)
    else row.quantity := by
  rw [entryQuantity, designatorCount_eq h]
  refine if_congr (and_congr_right fun _ => not_congr ?_) rfl rfl
  rw [List.length_eq_zero_iff]

theorem stores_iff {quantity : ℤ} :
    Stores row quantity ↔ row.quantityRaw = "" ∧ entryQuantity row = quantity ∧ quantity < quantityLimit :=
  ⟨fun h => ⟨h.passes, h.entry 0 0 none 0, h.fits⟩, fun h => ⟨h.1, fun _ _ _ _ => h.2.1, h.2.2⟩⟩

theorem row_mem_of_mapM {body : List (List String)} {rows : List ParsedRow} (hcells : cells ∈ body)
    (hrow : applyMapping digits cells mapping sep = .ok row)
    (h : body.mapM (fun cells => applyMapping digits cells mapping sep) = .ok rows) : row ∈ rows := by
  have hsteps := Outcome.mapM_ok h
  clear h
  induction hsteps with
  | nil => exact absurd hcells List.not_mem_nil
  | cons hstep _ ih =>
    rcases List.mem_cons.mp hcells with rfl | hcells
    · exact List.mem_cons.mpr (.inl (Outcome.ok_unique hrow hstep))
    · exact List.mem_cons_of_mem _ (ih hcells)

theorem prescan_refuses {body : List (List String)} (hcells : cells ∈ body)
    (hrow : applyMapping digits cells mapping sep = .ok row) (hraw : row.quantityRaw ≠ "") :
    ∃ e, prescan digits mapping sep body = .error e := by
  cases hscan : prescan digits mapping sep body with
  | error e => exact ⟨e, rfl⟩
  | ok rows =>
    obtain ⟨rows, hrows, hscan⟩ := Outcome.bind_ok.mp hscan
    obtain ⟨hnone, -⟩ := Outcome.check_bind_ok.mp hscan
    have hmem := row_mem_of_mapM hcells hrow hrows
    rw [← List.zipIdx_map_fst 1 rows] at hmem
    obtain ⟨item, hitem, rfl⟩ := List.mem_map.mp hmem
    rw [List.map_eq_nil_iff, List.filter_eq_nil_iff] at hnone
    exact absurd (decide_eq_true hraw) (hnone item hitem)

theorem quantityRaw_of_refused {e : BomError} (h : prescan digits mapping sep [cells] = .error e)
    (hrow : applyMapping digits cells mapping sep = .ok row) : row.quantityRaw ≠ "" := by
  intro hraw
  have hpass : prescan digits mapping sep [cells] = .ok [row] := by
    refine Outcome.bind_ok.mpr ⟨[row], ?_, ?_⟩
    · simp [hrow, bind, Except.bind, pure, Except.pure]
    · refine Outcome.check_bind_ok.mpr ⟨?_, rfl⟩
      simp [hraw]
  rw [hpass] at h
  exact absurd h (by simp)

/-- Quantities are imported exactly for the importable rows and no others. -/
theorem importedExactly_iff (digits : Digits) (cells : List String) (mapping : List BomMappingField)
    (sep : String) :
    ImportedExactly digits cells mapping sep ↔ Importable digits cells mapping sep := by
  constructor
  · intro h
    obtain ⟨row, hrow⟩ := h.reads
    have hreads := exists_applyMapping.mp h.reads
    refine ⟨hreads.inRange, hreads.separated, fun v hv => exists_parseQuantity.mp (hreads.numbers v hv),
      fun hfractional => ?_, fun hwhole v hv n hn => ?_, fun hwhole hunset => ?_⟩
    · obtain ⟨e, he⟩ := h.refused hfractional [cells] (List.mem_singleton_self _)
      exact (hreads.quantityRaw hrow).mp (quantityRaw_of_refused he hrow)
    · obtain ⟨-, hentry, hfits⟩ := stores_iff.mp (h.integer hwhole row hrow v hv n hn)
      refine ⟨(le_max_right 0 n).trans_lt hfits, fun hone => ?_⟩
      have hquantity := applyMapping_quantity hrow
      rw [hv, Option.map_some, Option.getD_some] at hquantity
      rw [cellQuantity_integer (hreads.numbers v (List.mem_of_getLast? hv)) hn (by omega), hone] at hquantity
      rw [entryQuantity_eq hrow, hquantity, hone] at hentry
      split at hentry <;> omega
    · obtain ⟨-, -, hfits⟩ := stores_iff.mp (h.unset hwhole row hrow hunset)
      split at hfits <;> omega
  · intro h
    have hreads : Reads digits cells mapping sep :=
      ⟨h.inRange, h.separated, fun v hv => exists_parseQuantity.mpr (h.finite v hv)⟩
    refine ⟨exists_applyMapping.mpr hreads, fun hfractional body hbody => ?_,
      fun hwhole row hrow v hv n hn => ?_, fun hwhole row hrow hunset => ?_⟩
    · obtain ⟨row, hrow⟩ := exists_applyMapping.mpr hreads
      exact prescan_refuses hbody hrow ((hreads.quantityRaw hrow).mpr (h.fraction hfractional))
    · obtain ⟨hlimit, hone⟩ := h.integer hwhole v hv n hn
      have hbound : quantityLimit = 1000000000000 := by norm_num [quantityLimit]
      have hquantity := applyMapping_quantity hrow
      rw [hv, Option.map_some, Option.getD_some,
        cellQuantity_integer (hreads.numbers v (List.mem_of_getLast? hv)) hn (by omega)] at hquantity
      refine stores_iff.mpr ⟨hreads.passes hrow hwhole, ?_, by omega⟩
      rw [entryQuantity_eq hrow, hquantity]
      split <;> omega
    · refine stores_iff.mpr ⟨hreads.passes hrow hwhole, ?_, ?_⟩
      · have hquantity : row.quantity = 1 := by
          rw [applyMapping_quantity hrow]
          cases hlast : (mappedCells .quantity cells mapping).getLast? with
          | none => rfl
          | some v =>
            have hblank : parseQuantity digits v = .ok (1, true) := if_pos (hunset v hlast)
            rw [Option.map_some, cellQuantity_eq hblank]
            rfl
        rw [entryQuantity_eq hrow, hquantity]
        by_cases hnone : designatorCount sep cells mapping = 0 <;> simp [hnone]
      · have hcount := h.unset hwhole hunset
        split
        · norm_num [quantityLimit]
        · exact hcount

theorem integerLiteral_one : IntegerLiteral ['1'] 1 :=
  ⟨[], ['1'], [], rfl, .inl rfl, by decide, rfl, .inl rfl, rfl⟩

/-- An explicit quantity of one is replaced by the number of designators. -/
theorem one_overridden : ¬∀ (digits : Digits) (cells : List String) (mapping : List BomMappingField)
    (sep : String), ImportedExactly digits cells mapping sep := by
  intro h
  have hexact := h ⟨id, fun _ _ => rfl⟩ ["1", "R1,R2"] [⟨0, .quantity⟩, ⟨1, .designators⟩] ","
  obtain ⟨row, hrow⟩ := hexact.reads
  have hreads := exists_applyMapping.mp hexact.reads
  have hcells : mappedCells .quantity ["1", "R1,R2"] [⟨0, .quantity⟩, ⟨1, .designators⟩] = ["1"] := rfl
  have hwhole : ¬∃ v ∈ mappedCells .quantity ["1", "R1,R2"] [⟨0, .quantity⟩, ⟨1, .designators⟩],
      Fractional ⟨id, fun _ _ => rfl⟩ v := by
    rw [hcells]
    intro ⟨v, hv, q, hliteral, hden⟩
    obtain rfl := List.mem_singleton.mp hv
    have hone := parse_integerLiteral integerLiteral_one
    rw [show quantityText ⟨id, fun _ _ => rfl⟩ "1" = ['1'] from rfl, hone] at hliteral
    rw [← Literal.finite.inj (Option.some.inj hliteral)] at hden
    exact hden rfl
  have hone : row.quantity = 1 := by
    have hread := cellQuantity_integer (hreads.numbers "1" (hcells ▸ List.mem_singleton_self _))
      integerLiteral_one (by norm_num)
    rw [applyMapping_quantity hrow, hcells]
    exact hread
  have hstored := hexact.integer hwhole row hrow "1" rfl 1 integerLiteral_one
  have hentry := (stores_iff.mp hstored).2.1
  have hcount : designatorCount "," ["1", "R1,R2"] [⟨0, .quantity⟩, ⟨1, .designators⟩] = 2 := by rfl
  rw [entryQuantity_eq hrow, hone, hcount] at hentry
  exact absurd hentry (by decide)

end StockManager.BomImport
