import StockManager.Model.EdaPackage

/-! # The KiCad HTTP library (domain/eda/kicad_library.py)

The documents keep the fields that name a library entry. -/

namespace StockManager.Eda

open Sexpr (Text)

structure Part where
  id : Uuid
  workspaceId : Uuid
  name : Text
  categoryId : Option Uuid
  archivedAt : Option Timestamp

/-- `part_eda`, at most one row for a part. -/
structure PartEda where
  workspaceId : Uuid
  partId : Uuid
  symbolId : Option Uuid
  symbolRefExternal : Option Text
  footprintId : Option Uuid
  footprintRefExternal : Option Text

structure Catalogue where
  parts : List Part
  partEda : List PartEda

/-- One part with everything its references can resolve from. -/
structure PartRow where
  part : Part
  config : Option PartEda
  symbol : Option Entry
  symbolCategorySlug : Option Text
  footprint : Option Entry
  footprintCategorySlug : Option Text
  category : Option PartCategory

/-! ### The joined rows

Each outer join is on a unique key, so it finds one row at most. -/

def joinEntry (s : State) (workspaceId : Uuid) (model : Model) (entryId : Option Uuid) :
    Option Entry :=
  (s.rows model).find? fun e => some e.id = entryId ∧ e.workspaceId = workspaceId ∧
    e.archivedAt = none

/-- An archived category joins as none. -/
def joinCategory (s : State) (workspaceId : Uuid) (categoryId : Option Uuid) :
    Option PartCategory :=
  s.categories.find? fun c => some c.id = categoryId ∧ c.workspaceId = workspaceId ∧
    c.archivedAt = none

def partRow (s : State) (catalogue : Catalogue) (part : Part) : PartRow :=
  let config := catalogue.partEda.find? fun e =>
    e.partId = part.id ∧ e.workspaceId = part.workspaceId
  let symbol := joinEntry s part.workspaceId .symbol (config.bind (·.symbolId))
  let footprint := joinEntry s part.workspaceId .footprint (config.bind (·.footprintId))
  { part := part
    config := config
    symbol := symbol
    symbolCategorySlug :=
      (joinCategory s part.workspaceId (symbol.bind (·.categoryId))).map (·.librarySlug)
    footprint := footprint
    footprintCategorySlug :=
      (joinCategory s part.workspaceId (footprint.bind (·.categoryId))).map (·.librarySlug)
    category := joinCategory s part.workspaceId part.categoryId }

/-- `_rows_stmt` -/
def partRows (s : State) (catalogue : Catalogue) (workspaceId : Uuid) : List PartRow :=
  (catalogue.parts.filter fun p => p.workspaceId = workspaceId ∧ p.archivedAt = none).map
    (partRow s catalogue)

/-! ### References -/

/-- A text column that is not empty. -/
def truthy (value : Option Text) : Option Text := value.filter (· ≠ [])

/-- The order the slots resolve in: an external reference, a hosted entry, the category's
default. -/
def resolveRef (external : Option Text) (hosted : Option Entry) (slug default : Option Text) :
    Option Text :=
  (truthy external).or ((hosted.map fun entry => entryRef entry.name slug).or (truthy default))

def symbolIdStr (row : PartRow) : Option Text :=
  resolveRef (row.config.bind (·.symbolRefExternal)) row.symbol row.symbolCategorySlug
    (row.category.bind (·.defaultSymbolRef))

def footprintRef (row : PartRow) : Option Text :=
  resolveRef (row.config.bind (·.footprintRefExternal)) row.footprint row.footprintCategorySlug
    (row.category.bind (·.defaultFootprintRef))

/-! ### Documents -/

structure Document where
  id : Uuid
  name : Text
  symbolIdStr : Text
  footprint : Option Text

/-- `_document`; an empty field is not put. -/
def document (row : PartRow) : Option Document :=
  (symbolIdStr row).map fun symbolIdStr =>
    ⟨row.part.id, row.part.name, symbolIdStr, truthy (footprintRef row)⟩

/-- The rows of one bucket, by name and id; no category is the *Uncategorized* bucket. -/
def bucketRows (collate : Text → Text → Bool) (s : State) (catalogue : Catalogue)
    (workspaceId : Uuid) (categoryId : Option Uuid) : List PartRow :=
  ((partRows s catalogue workspaceId).filter fun row =>
    match categoryId with
    | none => row.category.isNone
    | some id => row.part.categoryId = some id).mergeSort fun a b =>
      collate a.part.name b.part.name ∧
        (collate b.part.name a.part.name → a.part.id ≤ b.part.id)

def detailRow (s : State) (catalogue : Catalogue) (workspaceId partId : Uuid) : Option PartRow :=
  (partRows s catalogue workspaceId).find? fun row => row.part.id = partId

def partDetail (s : State) (catalogue : Catalogue) (workspaceId partId : Uuid) : Option Document :=
  (detailRow s catalogue workspaceId partId).bind document

end StockManager.Eda
