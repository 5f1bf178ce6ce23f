import StockManager.Model.Texts

/-! # Part names (domain/parts/naming.py, services/part_rename.py) -/

namespace StockManager.Naming

/-- What the rename reads of a part: its columns and the value of its `alias` custom field. -/
structure NamedPart where
  name : String
  mpn : Option String
  description : Option String
  aliasField : Option String
  deriving DecidableEq

def roleSeparator : String := " - "

def nameMaxLength : ℕ := 300

def maxValueLength : ℕ := 200

def clean (value : Option String) : String := strip (value.getD "")

theorem strip_clean (value : Option String) : strip (clean value) = clean value := strip_strip _

/-! ### The canonical name -/

/-- A name that is not blank and has no white space at its ends. -/
structure CanonicalName where
  text : String
  ne_empty : text ≠ ""
  stripped : strip text = text

/-- `render_value`, of the template's text with its placeholders substituted -/
def renderValue (substituted : String) : Option String :=
  let rendered := " ".intercalate (words substituted)
  if rendered = "" ∨ maxValueLength < rendered.length then none else some rendered

theorem renderValue_some {substituted rendered : String} (h : renderValue substituted = some rendered) :
    rendered ≠ "" ∧ strip rendered = rendered := by
  rw [renderValue] at h
  split at h
  next => exact absurd h (Option.some_ne_none _).symm
  next hkept =>
    obtain rfl := Option.some.inj h
    rw [not_or] at hkept
    refine ⟨hkept.1, (strip_intercalate (fun hnil => hkept.1 ?_) fun word => mem_words).2⟩
    rw [hnil, String.intercalate_nil]

/-- `name = f"{prefix} {rendered}" if prefix else rendered`, unless it is the part number -/
def composed (refdesPrefix mpn : Option String) (rendered : String) : String :=
  if rendered = clean mpn ∨ clean refdesPrefix = "" then rendered
  else clean refdesPrefix ++ (" " ++ rendered)

theorem composed_canonical (refdesPrefix mpn : Option String) {substituted rendered : String}
    (h : renderValue substituted = some rendered) :
    composed refdesPrefix mpn rendered ≠ "" ∧
      strip (composed refdesPrefix mpn rendered) = composed refdesPrefix mpn rendered := by
  obtain ⟨hne, hstrip⟩ := renderValue_some h
  rw [composed]
  split
  next => exact ⟨hne, hstrip⟩
  next hboth =>
    rw [not_or] at hboth
    refine ⟨fun hempty => hboth.2 (String.append_eq_empty_iff.mp hempty).1, ?_⟩
    exact strip_append (strip_clean _) hstrip hboth.2 hne " "

/-- `_compose`; `rendersWhole` says that every placeholder resolves. -/
def compose (rendersWhole : Bool) (substituted : String) (refdesPrefix mpn : Option String) :
    Option CanonicalName :=
  if rendersWhole then
    match h : renderValue substituted with
    | none => none
    | some rendered =>
      if nameMaxLength < (composed refdesPrefix mpn rendered).length then none
      else some ⟨composed refdesPrefix mpn rendered, (composed_canonical refdesPrefix mpn h).1,
        (composed_canonical refdesPrefix mpn h).2⟩
  else none

/-! ### Classifying and proposing -/

inductive NameClass
  | canonical | mpn | description | roleSuffix | free
  deriving DecidableEq

inductive PreservedIn
  | aliasField | mpn | description | none
  deriving DecidableEq

structure RenameProposal where
  classification : NameClass
  newName : Option String
  aliasText : Option String
  preservedIn : PreservedIn
  skipReason : String
  deriving DecidableEq

def roleAfter (name head : String) : Option String :=
  let shape := (head ++ roleSeparator).toList
  if head = "" ∨ ¬ shape <+: name.toList then none
  else
    let role := strip (String.ofList (name.toList.drop shape.length))
    if role = "" then none else some role

/-- `description[:NAME_MAX_LENGTH]` -/
def descriptionHead (description : String) : String :=
  String.ofList (description.toList.take nameMaxLength)

def classifyName (part : NamedPart) (canonical : Option CanonicalName) : NameClass :=
  let name := clean (some part.name)
  let mpn := clean part.mpn
  let description := clean part.description
  if name ∈ canonical.map (·.text) then .canonical
  else if mpn ≠ "" ∧ name = mpn then .mpn
  else if name ≠ "" ∧ (name = description ∨ name = descriptionHead description) then .description
  else if (canonical.bind fun head => roleAfter name head.text).isSome ∨ (roleAfter name mpn).isSome then
    .roleSuffix
  else .free

/-- `canonical or mpn or None` -/
def targetName (part : NamedPart) (canonical : Option CanonicalName) : Option String :=
  match canonical with
  | some head => some head.text
  | none => if clean part.mpn = "" then none else some (clean part.mpn)

/-- The text to park in the `alias` field. -/
def aliasFor (part : NamedPart) (canonical : Option CanonicalName) : Option String :=
  let name := clean (some part.name)
  if classifyName part canonical = .roleSuffix then
    (canonical.bind fun head => roleAfter name head.text).or (roleAfter name (clean part.mpn))
  else if name = "" then none else some name

def proposeRename (part : NamedPart) (canonical : Option CanonicalName) : RenameProposal :=
  let classification := classifyName part canonical
  match targetName part canonical with
  | none => ⟨classification, none, none, .none, ""⟩
  | some target =>
    if clean (some part.name) = target then ⟨classification, none, none, .none, ""⟩
    else if nameMaxLength < target.length then ⟨classification, none, none, .none, "name_too_long"⟩
    else if clean (some part.name) = clean part.mpn then ⟨classification, some target, none, .mpn, ""⟩
    else
      let parked := aliasFor part canonical
      ⟨classification, some target, parked, if parked.isSome then .aliasField else .none, ""⟩

/-! ### The job -/

def resolveConflicts (proposal : RenameProposal) (hasAlias includeFree : Bool) : RenameProposal :=
  if proposal.classification = .free ∧ includeFree = false then
    { proposal with newName := none, aliasText := none, skipReason := "free_excluded" }
  else if proposal.preservedIn ≠ .aliasField ∨ hasAlias = false then proposal
  else if proposal.classification = .description then
    { proposal with
      aliasText := none, preservedIn := .description, skipReason := "alias_conflict" }
  else
    { proposal with
      newName := none, aliasText := none, preservedIn := .none, skipReason := "alias_conflict" }

/-- `_apply` -/
def applyRename (part : NamedPart) (newName : String) (parked : Option String) : NamedPart :=
  { part with
    name := newName
    aliasField := match parked with
      | some text => if text = "" then part.aliasField else some text
      | none => part.aliasField }

/-- What `_process` resolves for one part. -/
def resolvedProposal (includeFree : Bool) (part : NamedPart) (canonical : Option CanonicalName) :
    RenameProposal :=
  let proposal := proposeRename part canonical
  if proposal.newName = none then proposal
  else resolveConflicts proposal part.aliasField.isSome includeFree

/-- One part of `_process` -/
def processPart (apply includeFree : Bool) (part : NamedPart) (canonical : Option CanonicalName) :
    NamedPart :=
  let proposal := resolvedProposal includeFree part canonical
  match proposal.newName with
  | none => part
  | some newName =>
    if apply then
      applyRename part newName
        (if proposal.preservedIn = .aliasField then proposal.aliasText else none)
    else part

end StockManager.Naming
