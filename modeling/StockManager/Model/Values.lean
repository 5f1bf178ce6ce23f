import Mathlib.Data.Rat.Floor
import Mathlib.Tactic.Common

/-! # Values of the columns

Identifiers, exact decimals, timestamps, dates and the enumerations the
`String` columns hold. A UUID is read as the 128-bit number it is: its
canonical text is 32 lower-case hexadecimal digits of fixed width, so the
order of the texts (`sorted(…, key=str)`) is the order of the numbers. -/

namespace StockManager

abbrev Uuid := ℕ

/-- `Numeric(18, 6)` columns and `decimal.Decimal`, without the 28 digits of Python's context. The
results are the same in `_required` for whole quantities and targets below 10^16 (both percentages
have four decimals), in `_allocate` for totals below 10^20, and in the optimizer for prices of up
to ten digits, tolerances of up to four decimals and quantities below 10^12. Money and specs, whose
results depend on the digits, take `DecimalContext.round`. -/
abbrev Decimal := ℚ

/-- Microseconds since 0001-01-01T00:00Z. -/
abbrev Timestamp := ℕ

/-- Proleptic Gregorian ordinal: day 1 is 0001-01-01. -/
abbrev Date := ℕ

def Timestamp.date (t : Timestamp) : Date := t / 86400000000 + 1

/-! ### Texts -/

/-- `str(uuid)`: groups of 8, 4, 4, 4 and 12 hexadecimal digits. -/
def uuidStr (u : Uuid) : String :=
  let digits := Nat.toDigits 16 u
  let hex := List.replicate (32 - digits.length) '0' ++ digits
  String.intercalate "-" ([(0, 8), (8, 4), (12, 4), (16, 4), (20, 12)].map fun g =>
    String.ofList ((hex.drop g.1).take g.2))

/-- `quantity_out` as it reads in a message: a whole number without a point,
anything else with the digits the column's scale keeps. -/
def quantityOut (q : Decimal) : String :=
  if q.den = 1 then toString q.num
  else
    let micro := (q.num * 1000000 / q.den).natAbs
    let digits := Nat.toDigits 10 (micro % 1000000)
    let frac := List.replicate (6 - digits.length) '0' ++ digits
    (if q < 0 then "-" else "") ++ toString (micro / 1000000) ++ "." ++
      String.ofList (frac.reverse.dropWhile (· = '0')).reverse

/-- The characters `str.strip()` removes. -/
def isSpace (c : Char) : Bool :=
  let n := c.toNat
  (9 ≤ n && n ≤ 13) || (28 ≤ n && n ≤ 32) || n = 133 || n = 160 || n = 5760 ||
    (8192 ≤ n && n ≤ 8202) || n = 8232 || n = 8233 || n = 8239 || n = 8287 || n = 12288

/-- `not (s or "").strip()` -/
def isBlank (s : Option String) : Bool := (s.getD "").toList.all isSpace

/-! ### `date.fromisoformat` -/

def isLeap (year : ℕ) : Bool := year % 4 = 0 && (year % 100 ≠ 0 || year % 400 = 0)

def daysBeforeYear (year : ℕ) : ℕ :=
  (year - 1) * 365 + (year - 1) / 4 - (year - 1) / 100 + (year - 1) / 400

def daysInMonth (year month : ℕ) : ℕ :=
  if month = 2 then if isLeap year then 29 else 28
  else if month = 4 ∨ month = 6 ∨ month = 9 ∨ month = 11 then 30 else 31

def dateOfCalendar (year month day : ℕ) : Option Date :=
  if 1 ≤ year ∧ 1 ≤ month ∧ month ≤ 12 ∧ 1 ≤ day ∧ day ≤ daysInMonth year month then
    some (daysBeforeYear year + ((List.range' 1 (month - 1)).map (daysInMonth year)).sum + day)
  else none

/-- Monday of ISO week 1: the week that holds 4 January. Ordinal 1 is a Monday. -/
def isoWeekOneMonday (year : ℕ) : ℕ :=
  let fourth := daysBeforeYear year + 4
  fourth - (fourth + 6) % 7

def dateOfIsoWeek (year week day : ℕ) : Option Date :=
  let weeks := (isoWeekOneMonday (year + 1) - isoWeekOneMonday year) / 7
  let ordinal := isoWeekOneMonday year + (week - 1) * 7 + day - 1
  -- The last ordinal is 9999-12-31.
  if 1 ≤ year ∧ 1 ≤ week ∧ week ≤ weeks ∧ 1 ≤ day ∧ day ≤ 7 ∧ ordinal ≤ 3652059 then
    some ordinal
  else none

def number (cs : List Char) : Option ℕ :=
  if cs.all (fun c => '0' ≤ c ∧ c ≤ '9') then
    some (cs.foldl (fun n c => n * 10 + (c.toNat - '0'.toNat)) 0)
  else none

/-- `date.fromisoformat`: calendar and week dates, with or without dashes. -/
def fromIsoFormat (s : String) : Option Date :=
  match s.toList with
  | [y1, y2, y3, y4, '-', 'W', w1, w2] => do
      dateOfIsoWeek (← number [y1, y2, y3, y4]) (← number [w1, w2]) 1
  | [y1, y2, y3, y4, 'W', w1, w2] => do
      dateOfIsoWeek (← number [y1, y2, y3, y4]) (← number [w1, w2]) 1
  | [y1, y2, y3, y4, '-', 'W', w1, w2, '-', d] => do
      dateOfIsoWeek (← number [y1, y2, y3, y4]) (← number [w1, w2]) (← number [d])
  | [y1, y2, y3, y4, 'W', w1, w2, d] => do
      dateOfIsoWeek (← number [y1, y2, y3, y4]) (← number [w1, w2]) (← number [d])
  | [y1, y2, y3, y4, '-', m1, m2, '-', d1, d2] => do
      dateOfCalendar (← number [y1, y2, y3, y4]) (← number [m1, m2]) (← number [d1, d2])
  | [y1, y2, y3, y4, m1, m2, d1, d2] => do
      dateOfCalendar (← number [y1, y2, y3, y4]) (← number [m1, m2]) (← number [d1, d2])
  | _ => none

example : fromIsoFormat "2024-02-29" = some 738945 := by decide

/-! ### Enumerations -/

inductive StockStatus
  | onHand | reserved
  deriving DecidableEq, Repr

inductive OperationType
  | add | remove | moveOut | moveIn | adjust | receive
  | reserve | release | buildConsume | buildProduce
  deriving DecidableEq, Repr

inductive PartType
  | linked | localPart | metaPart | subAssembly
  deriving DecidableEq, Repr

inductive EntryType
  | part | metaPart | nonPart | unmatched
  deriving DecidableEq, Repr

inductive SubstituteDirection
  | bidirectional | oneWay
  deriving DecidableEq, Repr

inductive LotSource
  | manual | split | purchase | build
  deriving DecidableEq, Repr

inductive OrderStatus
  | draft | opened | partlyReceived | received | cancelled
  deriving DecidableEq, Repr

inductive BuildStatus
  | planned | inProgress | complete | cancelled
  deriving DecidableEq, Repr

def BuildStatus.str : BuildStatus → String
  | planned => "planned"
  | inProgress => "in_progress"
  | complete => "complete"
  | cancelled => "cancelled"

inductive StageStatus
  | planned | inProgress | complete
  deriving DecidableEq, Repr

inductive StorageConstraint
  | singlePartOnly | existingPartsOnly
  deriving DecidableEq, Repr

inductive PriceMode
  | none | perComponent | entireLot
  deriving DecidableEq, Repr

inductive Role
  | viewer | member | admin | owner
  deriving DecidableEq, Repr

/-- `_ROLE_RANK` -/
def Role.rank : Role → ℕ
  | viewer => 0
  | member => 1
  | admin => 2
  | owner => 3

/-! ### Errors -/

/-- What an HTTP error carries beside its code and message. -/
inductive Detail
  | nothing
  | ofConstraint (which : StorageConstraint) (storageLocationId : Uuid)
  | blocking (rows : List (Option Uuid × Option Uuid × Decimal))
  | resource (label : String)
  | requiredRole (role : Role)
  deriving DecidableEq, Repr

inductive Err
  | stock (message : String)
  | stockConflict (message : String) (which : StorageConstraint) (storageLocationId : Uuid)
  | order (message : String)
  | build (message : String)
  | http (status : ℕ) (code : String) (message : String) (detail : Detail)
  | integrity (constraintName : String)
  deriving DecidableEq, Repr

/-! ### The request context -/

/-- What a handler gets from its dependencies: the workspace, the user with the
role the membership gives, and the values `utcnow()` and `uuid4()` return at
each place of the call tree. -/
structure Ctx where
  workspaceId : Uuid
  userId : Option Uuid
  role : Role
  clock : List ℕ → Timestamp
  draw : List ℕ → Uuid

def Ctx.utcnow (ctx : Ctx) : Timestamp := ctx.clock []
def Ctx.uuid4 (ctx : Ctx) : Uuid := ctx.draw []

/-- The context of the `i`-th inner call. -/
def Ctx.child (ctx : Ctx) (i : ℕ) : Ctx :=
  { ctx with clock := fun path => ctx.clock (i :: path), draw := fun path => ctx.draw (i :: path) }

@[simp] theorem Ctx.child_workspaceId (ctx : Ctx) (i : ℕ) :
    (ctx.child i).workspaceId = ctx.workspaceId := rfl
@[simp] theorem Ctx.child_userId (ctx : Ctx) (i : ℕ) : (ctx.child i).userId = ctx.userId := rfl
@[simp] theorem Ctx.child_role (ctx : Ctx) (i : ℕ) : (ctx.child i).role = ctx.role := rfl

end StockManager
