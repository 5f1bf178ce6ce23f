import StockManager.Model.Values
import StockManager.Library.Outcome
import Mathlib.Data.List.Sort

/-! # Pages (core/pagination.py)

A table is what the caller's statement selects. SQL leaves a comparison with NULL unknown; no
condition here negates one, so an unknown comparison counts as false. -/

namespace StockManager.Pagination

def maxPageLimit : ℤ := 200

inductive PageError
  | badRequest (detail : String)
  /-- SQLAlchemy compares by `>` and `<` with no None. -/
  | argument
  /-- The database does not read the bound value. -/
  | database

/-! ### Cursors -/

structure Cursor where
  id : Uuid
  sortKey : Option String
  sortKeys : Option (List (Option String))
  scope : Option String

/-- What a cursor signs. -/
structure Payload where
  id : String
  sk : Option String
  sks : Option (List (Option String))
  sc : Option String
  deriving DecidableEq

inductive LoadError
  | badSignature
  | other

/-- `URLSafeSerializer` and `UUID`; a token is opaque to who hands it back. -/
structure Env (Token : Type) where
  dumps : Payload → Token
  loads : Token → Except LoadError Payload
  loads_dumps : ∀ payload, loads (dumps payload) = .ok payload
  uuidStr : Uuid → String
  readUuid : String → Option Uuid
  readUuid_str : ∀ id, readUuid (uuidStr id) = some id

def encodeCursor {Token : Type} (env : Env Token) (c : Cursor) : Token :=
  env.dumps ⟨env.uuidStr c.id, c.sortKey, c.sortKeys, c.scope⟩

def LoadError.refusal : LoadError → PageError
  | badSignature => .badRequest "invalid or tampered cursor"
  | other => .badRequest "malformed cursor"

/-- The canonical form is compared, so that no other token stands for the payload. -/
def decodeCursor {Token : Type} [DecidableEq Token] (env : Env Token) (s : Token) :
    Except PageError Cursor := do
  let payload ← (env.loads s).mapError LoadError.refusal
  Outcome.check (s = env.dumps payload) LoadError.badSignature.refusal
  let id ← Outcome.orRaise (env.readUuid payload.id) (.badRequest "malformed cursor payload")
  return ⟨id, payload.sk, payload.sks, payload.sc⟩

def refuseWrongCursor (cursor : Option Cursor) (wantsComposite : Bool) (scope : Option String) :
    Except PageError Unit :=
  match cursor with
  | none => return ()
  | some cursor =>
    Outcome.check (cursor.sortKeys.isSome = wantsComposite ∧ cursor.scope = scope)
      (.badRequest "cursor does not match the requested sort")

def clampLimit (limit : ℤ) : ℕ := (min (max limit 1) maxPageLimit).toNat

/-! ### Sort expressions -/

/-- An expression over the selected rows, in the order of the database, and how a cursor holds
its values. -/
structure SortExpr (ρ : Type) where
  Value : Type
  order : LinearOrder Value
  eval : ρ → Option Value
  str : Value → String
  decode : String → Option Value
  decode_str : ∀ value, decode (str value) = some value

attribute [instance] SortExpr.order

section Pages

variable {ρ Token : Type}

/-- The row past the value, in the direction of the sort. -/
def SortExpr.past (e : SortExpr ρ) (asc : Bool) (value value' : e.Value) : Bool :=
  if asc then value < value' else value' < value

def strictlyAfter (e : SortExpr ρ) (asc : Bool) (value : Option e.Value) (row : ρ) : Bool :=
  match value with
  | none => false
  | some value =>
    match e.eval row with
    | none => true
    | some found => e.past asc value found

def sameAs (e : SortExpr ρ) (value : Option e.Value) (row : ρ) : Bool := e.eval row = value

/-- The values of a cursor, one for each expression. -/
def Seek : List (SortExpr ρ) → Type
  | [] => Unit
  | e :: later => Option e.Value × Seek later

def decodeSeek : (exprs : List (SortExpr ρ)) → List (Option String) → Except PageError (Seek exprs)
  | [], _ => return ()
  | _ :: _, [] => .error (.badRequest "cursor does not match the requested sort")
  | e :: later, item :: raw => do
    let value ← match item with
      | none => .ok none
      | some text =>
        (Outcome.orRaise (e.decode text) (.badRequest "malformed cursor payload")).map some
    let rest ← decodeSeek later raw
    return (value, rest)

def decodedSeek (exprs : List (SortExpr ρ)) (raw : List (Option String)) :
    Except PageError (Seek exprs) := do
  Outcome.check (raw.length = exprs.length) (.badRequest "cursor does not match the requested sort")
  decodeSeek exprs raw

/-- `after(c1) OR (c1 = s1 AND after(c2)) OR … OR (all equal AND id > s_id)`; `same` is the
conjunction of the equalities so far. -/
def seekLegs (rowId : ρ → Uuid) (asc : Bool) (id : Uuid) :
    (exprs : List (SortExpr ρ)) → Seek exprs → Bool → ρ → Bool
  | [], _, same, row => same && id < rowId row
  | e :: later, (value, seek), same, row =>
    (same && strictlyAfter e asc value row) ||
      seekLegs rowId asc id later seek (same && sameAs e value row) row

/-- ORDER BY the expressions in one direction, NULLS LAST, then by id. -/
def ordered (rowId : ρ → Uuid) (asc : Bool) : List (SortExpr ρ) → ρ → ρ → Bool
  | [], a, b => rowId a ≤ rowId b
  | e :: later, a, b =>
    match e.eval a, e.eval b with
    | some value, some value' =>
      if value = value' then ordered rowId asc later a b else e.past asc value value'
    | some _, none => true
    | none, some _ => false
    | none, none => ordered rowId asc later a b

/-- LIMIT one more than asked, to see whether there is more; the last row that is kept makes the
next cursor. -/
def cutPage (env : Env Token) (cursorOf : ρ → Cursor) (limit : ℕ) (sorted : List ρ) :
    List ρ × Option Token :=
  let found := sorted.take (limit + 1)
  if limit < found.length then
    (found.take limit, (found.take limit).getLast?.map fun last => encodeCursor env (cursorOf last))
  else (found, none)

def keysetCursor (rowId : ρ → Uuid) (exprs : List (SortExpr ρ)) (scope : Option String) (row : ρ) :
    Cursor :=
  ⟨rowId row, none, some (exprs.map fun e => (e.eval row).map e.str), scope⟩

/-- The rows that a cursor leaves. -/
def seekKeyset (rowId : ρ → Uuid) (exprs : List (SortExpr ρ)) (asc : Bool) (table : List ρ)
    (cursor : Option Cursor) : Except PageError (List ρ) :=
  match cursor with
  | none => .ok table
  | some cursor =>
    match cursor.sortKeys with
    | none => .ok table
    | some raw => (decodedSeek exprs raw).map fun seek =>
      table.filter (seekLegs rowId asc cursor.id exprs seek true)

def paginateKeyset (env : Env Token) (rowId : ρ → Uuid) (exprs : List (SortExpr ρ)) (asc : Bool)
    (scope : Option String) (table : List ρ) (cursor : Option Cursor) (limit : ℤ) :
    Except PageError (List ρ × Option Token) := do
  refuseWrongCursor cursor true scope
  let selected ← seekKeyset rowId exprs asc table cursor
  return cutPage env (keysetCursor rowId exprs scope) (clampLimit limit)
    (selected.insertionSort fun a b => ordered rowId asc exprs a b)

/-! ### One column -/

/-- `(sort_key, id)` behind the cursor's, in the direction of the sort. -/
def columnLeg (rowId : ρ → Uuid) (col : SortExpr ρ) (asc : Bool) (id : Uuid)
    (value : col.Value) (row : ρ) : Bool :=
  match col.eval row with
  | some found =>
    col.past asc value found ||
      (found = value && if asc then id < rowId row else rowId row < id)
  | none => false

/-- ORDER BY the column and the id in one direction: NULLs come last, or first where it
descends. -/
def columnOrdered (rowId : ρ → Uuid) (col : SortExpr ρ) (asc : Bool) (a b : ρ) : Bool :=
  let byId : Bool := if asc then rowId a ≤ rowId b else rowId b ≤ rowId a
  match col.eval a, col.eval b with
  | some value, some value' => if value = value' then byId else col.past asc value value'
  | some _, none => asc
  | none, some _ => !asc
  | none, none => byId

def columnCursor (rowId : ρ → Uuid) (col : SortExpr ρ) (row : ρ) : Cursor :=
  ⟨rowId row, (col.eval row).map col.str, none, none⟩

def seekColumn (rowId : ρ → Uuid) (col : SortExpr ρ) (asc : Bool) (table : List ρ)
    (cursor : Option Cursor) : Except PageError (List ρ) :=
  match cursor with
  | none => .ok table
  | some cursor =>
    match cursor.sortKey with
    | none => .error .argument
    | some text => (Outcome.orRaise (col.decode text) .database).map fun value =>
      table.filter (columnLeg rowId col asc cursor.id value)

def paginate (env : Env Token) (rowId : ρ → Uuid) (col : SortExpr ρ) (asc : Bool) (table : List ρ)
    (cursor : Option Cursor) (limit : ℤ) : Except PageError (List ρ × Option Token) := do
  refuseWrongCursor cursor false none
  let selected ← seekColumn rowId col asc table cursor
  return cutPage env (columnCursor rowId col) (clampLimit limit)
    (selected.insertionSort fun a b => columnOrdered rowId col asc a b)

/-! ### Clients -/

/-- A route decodes the cursor that the client hands back. -/
def servePage [DecidableEq Token] (env : Env Token)
    (serve : List ρ → Option Cursor → ℤ → Except PageError (List ρ × Option Token))
    (token : Option Token) (table : List ρ) (limit : ℤ) :
    Except PageError (List ρ × Option Token) := do
  let cursor ← match token with
    | none => .ok none
    | some token => (decodeCursor env token).map some
  serve table cursor limit

/-- A client follows the next cursors; each request meets the table of its time. -/
def follow [DecidableEq Token] (env : Env Token)
    (serve : List ρ → Option Cursor → ℤ → Except PageError (List ρ × Option Token)) :
    Option Token → List (List ρ × ℤ) → Except PageError (List ρ × Bool)
  | _, [] => return ([], false)
  | token, request :: later => do
    let (rows, next) ← servePage env serve token request.1 request.2
    match next with
    | none => return (rows, true)
    | some next => do
      let (rest, finished) ← follow env serve (some next) later
      return (rows ++ rest, finished)

end Pages

end StockManager.Pagination
