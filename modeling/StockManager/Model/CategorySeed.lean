import StockManager.Model.Categories

/-! # The category seed (domain/categories/seed.py, `plan_workspace`) -/

namespace StockManager.CategorySeed

open Categories (PartCategory ParentMap loadParentMap depthOf)

/-- `SEEDABLE_FIELDS` -/
inductive SeedField
  | description | refdesPrefix | defaultSymbolRef | footprintFilters | valueTemplate | kicadFields
  deriving DecidableEq

def SeedField.column : SeedField → String
  | .description => "description"
  | .refdesPrefix => "refdes_prefix"
  | .defaultSymbolRef => "default_symbol_ref"
  | .footprintFilters => "footprint_filters"
  | .valueTemplate => "value_template"
  | .kicadFields => "kicad_fields"

def seedableFields : List SeedField :=
  [.description, .refdesPrefix, .defaultSymbolRef, .footprintFilters, .valueTemplate, .kicadFields]

/-- The value of a seedable column -/
inductive FieldValue
  | null
  | text (s : String)
  | list (items : List String)
  deriving DecidableEq

structure CategoryRow extends PartCategory where
  librarySlug : String
  values : SeedField → FieldValue

structure SeedCategory where
  name : String
  librarySlug : String
  parent : Option String
  sortOrder : ℤ
  values : SeedField → FieldValue

def CategoryRow.IsActive (row : CategoryRow) : Prop := row.archivedAt = none

instance : DecidablePred CategoryRow.IsActive := fun row => inferInstanceAs (Decidable (row.archivedAt = none))

/-- `_is_unset`; `kicad_fields` is the one field of `EMPTY_IS_SET_FIELDS`. -/
def isUnset (field : SeedField) : FieldValue → Bool
  | .null => true
  | .text s => field ≠ .kicadFields ∧ strip s = ""
  | .list items => field ≠ .kicadFields ∧ items = []

def fillableFields (existing : CategoryRow) (seed : SeedCategory) : List SeedField :=
  seedableFields.filter fun field => seed.values field ≠ .null ∧ isUnset field (existing.values field) = true

/-- The `setattr` of the fields -/
def fill (seed : SeedCategory) (fields : List SeedField) (row : CategoryRow) : CategoryRow :=
  { row with values := fun field => if field ∈ fields then seed.values field else row.values field }

/-! ### `_WorkspaceIndex` -/

section Index

variable (lower : String → String)

/-- The index is kept as the rows it was made from, with the planned ones behind them; a key of a
dictionary leads to the last row that has it. -/
def byName (rows : List CategoryRow) (name : String) : Option CategoryRow :=
  (rows.filter fun row => row.IsActive ∧ lower row.name = lower name).getLast?

def bySlug (rows : List CategoryRow) (slug : String) : Option CategoryRow :=
  (rows.filter fun row => row.IsActive ∧ row.librarySlug = slug).getLast?

/-- The key of a seed row: its name, and for a child the parent it is under -/
def InScope (seed : SeedCategory) (parentId : Option Uuid) (row : CategoryRow) : Prop :=
  lower row.name = lower seed.name ∧ (seed.parent = none ∨ row.parentId = parentId)

instance (seed : SeedCategory) (parentId : Option Uuid) : DecidablePred (InScope lower seed parentId) :=
  fun row => by unfold InScope; infer_instance

/-- The active rows that answer a seed row's lookup -/
def answers (rows : List CategoryRow) (seed : SeedCategory) (parentId : Option Uuid) : List CategoryRow :=
  rows.filter fun row => row.IsActive ∧ InScope lower seed parentId row

def isAmbiguous (rows : List CategoryRow) (seed : SeedCategory) (parentId : Option Uuid) : Bool :=
  1 < (answers lower rows seed parentId).length

/-- `match` -/
def matchRow (rows : List CategoryRow) (seed : SeedCategory) (parentId : Option Uuid) : Option CategoryRow :=
  (answers lower rows seed parentId).getLast?

def archivedMatch (rows : List CategoryRow) (seed : SeedCategory) (parentId : Option Uuid) : Option CategoryRow :=
  (rows.filter fun row => ¬ row.IsActive ∧ InScope lower seed parentId row).getLast?

end Index

/-! ### `_plan_one` -/

inductive Action
  | created | updated | unchanged | skipped
  deriving DecidableEq

structure SeedOutcome where
  path : String
  action : Action
  categoryId : Option Uuid
  detail : String
  deriving DecidableEq

def maxDepth : ℕ := 6

def reasonNameTaken : String := "name used by another category"
def reasonSlugTaken : String := "library slug used by another category"
def reasonArchived : String := "an archived category already has this name here"
def reasonParentMissing : String := "parent category could not be resolved"
def reasonTooDeep : String := "would exceed the 6-level nesting cap"
def reasonNameAmbiguous : String :=
  "two active categories share this name; rename one so the seed knows which it means"

/-- `_path_of`; an empty parent is no part of the path. -/
def pathOf (seed : SeedCategory) : String :=
  match seed.parent.filter (· ≠ "") with
  | none => seed.name
  | some parent => parent ++ " / " ++ seed.name

/-- What is decided of a seed row -/
inductive Verdict
  | skip (detail : String)
  | found (existing : CategoryRow)
  | create (row : CategoryRow)

/-- `_new_row`, with the id that `uuid4` gives -/
def newRow (seed : SeedCategory) (id : Uuid) (parentId : Option Uuid) : CategoryRow where
  id := id
  name := seed.name
  sortOrder := seed.sortOrder
  parentId := parentId
  archivedAt := none
  librarySlug := seed.librarySlug
  values := seed.values

section Plan

variable (lower : String → String)

/-- The checks of a seed row whose parent is resolved -/
def planUnder (newId : Uuid) (rows : List CategoryRow) (seed : SeedCategory) (parentId : Option Uuid) : Verdict :=
  if isAmbiguous lower rows seed parentId = true then .skip reasonNameAmbiguous
  else match matchRow lower rows seed parentId with
    | some existing => .found existing
    | none =>
      if (archivedMatch lower rows seed parentId).isSome = true then .skip reasonArchived
      else match byName lower rows seed.name with
        | some clash => .skip (reasonNameTaken ++ ": " ++ clash.librarySlug)
        | none =>
          match bySlug rows seed.librarySlug with
          | some clash => .skip (reasonSlugTaken ++ ": " ++ clash.name)
          | none =>
            if parentId.any fun parent =>
                maxDepth ≤ depthOf (loadParentMap (rows.map CategoryRow.toPartCategory)) parent then
              .skip reasonTooDeep
            else .create (newRow seed newId parentId)

/-- The parent id of a seed row; `none` when its parent is not resolved -/
def parentOf (resolved : List (String × Uuid)) (seed : SeedCategory) : Option (Option Uuid) :=
  match seed.parent with
  | none => some none
  | some parent => (Dict.find parent resolved).map some

def planOne (newId : Uuid) (rows : List CategoryRow) (resolved : List (String × Uuid)) (seed : SeedCategory) :
    Verdict :=
  match parentOf resolved seed with
  | none => .skip reasonParentMissing
  | some parentId => planUnder lower newId rows seed parentId

def outcomeOf (apply : Bool) (seed : SeedCategory) : Verdict → SeedOutcome
  | .skip detail => ⟨pathOf seed, .skipped, none, detail⟩
  | .found existing =>
    ⟨pathOf seed, if fillableFields existing seed = [] then .unchanged else .updated, some existing.id,
      ", ".intercalate ((fillableFields existing seed).map SeedField.column)⟩
  | .create row => ⟨pathOf seed, .created, if apply then some row.id else none, ""⟩

/-- The rows of the index, the resolved names and the report -/
structure PlanState where
  rows : List CategoryRow
  resolved : List (String × Uuid)
  outcomes : List SeedOutcome

/-- A turn of the loop; only `apply` writes to the rows it finds. -/
def planStep (apply : Bool) (newId : String → Uuid) (state : PlanState) (seed : SeedCategory) : PlanState :=
  let verdict := planOne lower (newId seed.name) state.rows state.resolved seed
  let outcomes := state.outcomes ++ [outcomeOf apply seed verdict]
  match verdict with
  | .skip _ => { state with outcomes := outcomes }
  | .found existing =>
    { rows :=
        if apply then
          state.rows.map fun row =>
            if row.id = existing.id then fill seed (fillableFields existing seed) row else row
        else state.rows
      resolved := Dict.put seed.name existing.id state.resolved
      outcomes := outcomes }
  | .create row =>
    { rows := state.rows ++ [row], resolved := Dict.put seed.name row.id state.resolved, outcomes := outcomes }

/-- `plan_workspace`: with `apply` its rows are the rows of the workspace afterwards. -/
def planWorkspace (apply : Bool) (newId : String → Uuid) (rows : List CategoryRow) (seeds : List SeedCategory) :
    PlanState :=
  seeds.foldl (planStep lower apply newId) ⟨rows, [], []⟩

end Plan

end StockManager.CategorySeed
