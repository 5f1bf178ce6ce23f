import Mathlib.Data.Prod.Lex
import Mathlib.Order.WithBot
import StockManager.Library.KeysetWalk
import StockManager.Model.Pagination

/-! # A paginated walk neither loses nor repeats a row

The seek predicate of a cursor is the order of the page: both compare places, the values of the
sort with NULL at the end and then the id. -/

namespace StockManager.Pagination

open KeysetWalk (Behind behind page walk Placed)
open KeySort (sortBy)

/-! ### Places -/

section Directions

variable {V : Type} {asc : Bool} {v w : V}

def Directed : Bool → Type → Type
  | true, V => V
  | false, V => Vᵒᵈ

instance [LinearOrder V] : (asc : Bool) → LinearOrder (Directed asc V)
  | true => inferInstanceAs (LinearOrder V)
  | false => inferInstanceAs (LinearOrder Vᵒᵈ)

def directed : (asc : Bool) → V → Directed asc V
  | true, v => v
  | false, v => OrderDual.toDual v

theorem directed_injective : Function.Injective (directed asc : V → Directed asc V) := by
  cases asc <;> exact fun _ _ h => h

theorem directed_lt [LinearOrder V] :
    directed asc v < directed asc w ↔ (if asc then v < w else w < v) := by
  cases asc <;> exact Iff.rfl

theorem directed_le [LinearOrder V] :
    directed asc v ≤ directed asc w ↔ (if asc then v ≤ w else w ≤ v) := by
  cases asc <;> exact Iff.rfl

end Directions

variable {ρ Token : Type} {rowId : ρ → Uuid} {asc : Bool}
  {exprs : List (SortExpr ρ)} {env : Env Token}

theorem SortExpr.past_iff (e : SortExpr ρ) {v w : e.Value} :
    e.past asc v w = true ↔ directed asc v < directed asc w := by
  rw [directed_lt, SortExpr.past]
  cases asc <;> simp

def nullsLast (asc : Bool) (e : SortExpr ρ) (value : Option e.Value) :
    WithTop (Directed asc e.Value) :=
  value.map (directed asc)

theorem nullsLast_injective (e : SortExpr ρ) : Function.Injective (nullsLast asc e) :=
  Option.map_injective directed_injective

theorem nullsLast_some_lt (e : SortExpr ρ) {v w : e.Value} :
    nullsLast asc e (some v) < nullsLast asc e (some w) ↔ e.past asc v w = true :=
  WithTop.coe_lt_coe.trans e.past_iff.symm

theorem nullsLast_none_lt (e : SortExpr ρ) (value : Option e.Value) :
    ¬nullsLast asc e none < nullsLast asc e value := not_top_lt

theorem strictlyAfter_iff (e : SortExpr ρ) (value : Option e.Value) (row : ρ) :
    strictlyAfter e asc value row = true ↔
      nullsLast asc e value < nullsLast asc e (e.eval row) := by
  cases value with
  | none => exact iff_of_false (fun h => by cases h) not_top_lt
  | some v =>
    rw [strictlyAfter]
    cases he : e.eval row with
    | none => exact iff_of_true rfl (WithTop.coe_lt_top _)
    | some w => exact (nullsLast_some_lt e).symm

def Place (asc : Bool) : List (SortExpr ρ) → Type
  | [] => Unit
  | e :: later => WithTop (Directed asc e.Value) ×ₗ Place asc later

instance placeOrder : (exprs : List (SortExpr ρ)) → LinearOrder (Place asc exprs)
  | [] => inferInstanceAs (LinearOrder Unit)
  | e :: later =>
    have := placeOrder later
    inferInstanceAs (LinearOrder (WithTop (Directed asc e.Value) ×ₗ Place asc later))

def seekPlace (asc : Bool) : (exprs : List (SortExpr ρ)) → Seek exprs → Place asc exprs
  | [], _ => ()
  | e :: later, seek => toLex (nullsLast asc e seek.1, seekPlace asc later seek.2)

/-- The values that a row is sorted by. -/
def keysOf : (exprs : List (SortExpr ρ)) → ρ → Seek exprs
  | [], _ => ()
  | e :: later, row => (e.eval row, keysOf later row)

theorem seekPlace_cons_lt (e : SortExpr ρ) (later : List (SortExpr ρ))
    (seek seek' : Seek (e :: later)) :
    seekPlace asc (e :: later) seek < seekPlace asc (e :: later) seek' ↔
      nullsLast asc e seek.1 < nullsLast asc e seek'.1 ∨
        nullsLast asc e seek.1 = nullsLast asc e seek'.1 ∧
          seekPlace asc later seek.2 < seekPlace asc later seek'.2 :=
  Prod.Lex.toLex_lt_toLex

theorem seekPlace_cons_eq (e : SortExpr ρ) (later : List (SortExpr ρ))
    (seek seek' : Seek (e :: later)) :
    seekPlace asc (e :: later) seek = seekPlace asc (e :: later) seek' ↔
      nullsLast asc e seek.1 = nullsLast asc e seek'.1 ∧
        seekPlace asc later seek.2 = seekPlace asc later seek'.2 :=
  toLex_inj.trans (Prod.mk.injEq ..).to_iff

/-- A place and an id compare as the first value and then the rest of the place with the id. -/
theorem seekPlace_toLex_lt (e : SortExpr ρ) (later : List (SortExpr ρ))
    (seek seek' : Seek (e :: later)) (id id' : Uuid) :
    toLex (seekPlace asc (e :: later) seek, id) < toLex (seekPlace asc (e :: later) seek', id') ↔
      nullsLast asc e seek.1 < nullsLast asc e seek'.1 ∨
        nullsLast asc e seek.1 = nullsLast asc e seek'.1 ∧
          toLex (seekPlace asc later seek.2, id) < toLex (seekPlace asc later seek'.2, id') := by
  simp only [Prod.Lex.toLex_lt_toLex, seekPlace_cons_lt, seekPlace_cons_eq]
  tauto

theorem seekPlace_toLex_le (e : SortExpr ρ) (later : List (SortExpr ρ))
    (seek seek' : Seek (e :: later)) (id id' : Uuid) :
    toLex (seekPlace asc (e :: later) seek, id) ≤ toLex (seekPlace asc (e :: later) seek', id') ↔
      nullsLast asc e seek.1 < nullsLast asc e seek'.1 ∨
        nullsLast asc e seek.1 = nullsLast asc e seek'.1 ∧
          toLex (seekPlace asc later seek.2, id) ≤ toLex (seekPlace asc later seek'.2, id') := by
  simp only [Prod.Lex.toLex_le_toLex, seekPlace_cons_lt, seekPlace_cons_eq]
  tauto

theorem seekPlace_injective : Function.Injective (seekPlace asc exprs) := by
  induction exprs with
  | nil => exact fun _ _ _ => rfl
  | cons e later ih =>
    intro seek seek' h
    obtain ⟨hvalue, hlater⟩ := (seekPlace_cons_eq e later seek seek').mp h
    exact Prod.ext (nullsLast_injective e hvalue) (ih hlater)

def placeOf (rowId : ρ → Uuid) (asc : Bool) (exprs : List (SortExpr ρ)) (row : ρ) :
    Place asc exprs ×ₗ Uuid :=
  toLex (seekPlace asc exprs (keysOf exprs row), rowId row)

theorem seekLegs_iff (id : Uuid) (seek : Seek exprs) (same : Bool) (row : ρ) :
    seekLegs rowId asc id exprs seek same row = true ↔
      same = true ∧ toLex (seekPlace asc exprs seek, id) < placeOf rowId asc exprs row := by
  induction exprs generalizing same with
  | nil =>
    rw [seekLegs, Bool.and_eq_true, decide_eq_true_eq, placeOf, Prod.Lex.toLex_lt_toLex]
    refine and_congr_right fun _ => ?_
    exact ⟨fun h => .inr ⟨rfl, h⟩, fun h => h.elim (fun h => absurd h (lt_irrefl ())) And.right⟩
  | cons e later ih =>
    obtain ⟨value, seek⟩ := seek
    have hsame : sameAs e value row = true ↔
        nullsLast asc e value = nullsLast asc e (e.eval row) := by
      rw [sameAs, decide_eq_true_eq, (nullsLast_injective e).eq_iff]
      exact eq_comm
    have hseek : toLex (seekPlace asc (e :: later) (value, seek), id) <
        placeOf rowId asc (e :: later) row ↔
          nullsLast asc e value < nullsLast asc e (e.eval row) ∨
            nullsLast asc e value = nullsLast asc e (e.eval row) ∧
              toLex (seekPlace asc later seek, id) < placeOf rowId asc later row :=
      seekPlace_toLex_lt e later ..
    rw [seekLegs, Bool.or_eq_true, Bool.and_eq_true, ih, Bool.and_eq_true, hseek, hsame,
      strictlyAfter_iff]
    tauto

theorem ordered_iff (rowId : ρ → Uuid) (asc : Bool) (exprs : List (SortExpr ρ)) (a b : ρ) :
    ordered rowId asc exprs a b = true ↔ placeOf rowId asc exprs a ≤ placeOf rowId asc exprs b := by
  induction exprs with
  | nil =>
    rw [ordered, decide_eq_true_eq, placeOf, placeOf, Prod.Lex.toLex_le_toLex]
    exact ⟨fun h => .inr ⟨rfl, h⟩, fun h => h.elim (fun h => absurd h (lt_irrefl ())) And.right⟩
  | cons e later ih =>
    have hplace : placeOf rowId asc (e :: later) a ≤ placeOf rowId asc (e :: later) b ↔
        nullsLast asc e (e.eval a) < nullsLast asc e (e.eval b) ∨
          nullsLast asc e (e.eval a) = nullsLast asc e (e.eval b) ∧
            placeOf rowId asc later a ≤ placeOf rowId asc later b :=
      seekPlace_toLex_le e later ..
    rw [hplace, ← ih, ordered]
    cases ha : e.eval a with
    | none =>
      cases hb : e.eval b with
      | none => rw [or_iff_right (nullsLast_none_lt e none), and_iff_right rfl]
      | some w =>
        refine iff_of_false Bool.false_ne_true fun h => h.elim (nullsLast_none_lt e _) fun h => ?_
        cases nullsLast_injective e h.1
    | some v =>
      cases hb : e.eval b with
      | none => exact iff_of_true rfl (.inl (WithTop.coe_lt_top _))
      | some w =>
        rw [nullsLast_some_lt, (nullsLast_injective e).eq_iff, Option.some_inj]
        by_cases hvw : v = w
        · subst hvw
          simp [SortExpr.past]
        · simp [hvw]

/-! ### Pages and walks -/

section Walks

variable {π : Type} [LinearOrder π] {place : ρ → π} {le : ρ → ρ → Bool} {cursorOf : ρ → Cursor}
  {table : List ρ} {limit : ℕ}

theorem insertionSort_eq (hle : ∀ a b, le a b = true ↔ place a ≤ place b) (rows : List ρ) :
    (rows.insertionSort fun a b => le a b = true) = sortBy place rows := by
  have hrel : (fun a b => le a b = true) = fun a b => place a ≤ place b :=
    funext fun a => funext fun b => propext (hle a b)
  rw [sortBy]
  congr!

theorem cutPage_eq (sorted : List ρ) : cutPage env cursorOf limit sorted =
    (sorted.take limit, if limit < sorted.length then
      (sorted.take limit).getLast?.map fun last => encodeCursor env (cursorOf last) else none) := by
  have hmore : limit < (sorted.take (limit + 1)).length ↔ limit < sorted.length := by
    rw [List.length_take]
    omega
  have htake : (sorted.take (limit + 1)).take limit = sorted.take limit := by
    rw [List.take_take, min_eq_left (Nat.le_succ limit)]
  rw [cutPage]
  simp only [hmore, htake]
  split
  · rfl
  · rename_i hall
    rw [List.take_of_length_le (by omega), List.take_of_length_le (by omega)]

def Marks (env : Env Token) (cursorOf : ρ → Cursor) (place : ρ → π) (token : Token) (p : π) :
    Prop :=
  ∃ row, token = encodeCursor env (cursorOf row) ∧ place row = p

theorem decode_encodeCursor [DecidableEq Token] (env : Env Token) (c : Cursor) :
    decodeCursor env (encodeCursor env c) = .ok c := by
  simp [decodeCursor, encodeCursor, env.loads_dumps, env.readUuid_str, Except.mapError,
    Outcome.check, Outcome.orRaise, bind, Except.bind, pure, Except.pure]

/-- What makes a paginator serve pages of the order. -/
structure Serves (env : Env Token) (cursorOf : ρ → Cursor) (place : ρ → π)
    (serve : List ρ → Option Cursor → ℤ → Except PageError (List ρ × Option Token)) : Prop where
  first : ∀ table limit, ∃ next, serve table none limit =
    .ok ((page place none table (clampLimit limit)).1, next) ∧
      Option.Rel (Marks env cursorOf place) next (page place none table (clampLimit limit)).2
  later : ∀ table row limit, ∃ next, serve table (some (cursorOf row)) limit =
    .ok ((page place (some (place row)) table (clampLimit limit)).1, next) ∧
      Option.Rel (Marks env cursorOf place) next
        (page place (some (place row)) table (clampLimit limit)).2

theorem cutPage_page (hle : ∀ a b, le a b = true ↔ place a ≤ place b) (after : Option π)
    (table : List ρ) : ∃ next, cutPage env cursorOf limit
      ((table.filter fun r => Behind place after r).insertionSort fun a b => le a b) =
        ((page place after table limit).1, next) ∧
      Option.Rel (Marks env cursorOf place) next (page place after table limit).2 := by
  have hsorted : ((table.filter fun r => Behind place after r).insertionSort fun a b => le a b) =
      behind place after table := insertionSort_eq hle _
  rw [hsorted, cutPage_eq]
  refine ⟨_, rfl, ?_⟩
  rw [page]
  simp only
  split
  · cases ((behind place after table).take limit).getLast? with
    | none => exact .none
    | some last => exact .some ⟨last, rfl, rfl⟩
  · exact .none

variable {serve : List ρ → Option Cursor → ℤ → Except PageError (List ρ × Option Token)}

theorem follow_walk [DecidableEq Token] (h : Serves env cursorOf place serve) {token : Option Token}
    {after : Option π} (hmarks : Option.Rel (Marks env cursorOf place) token after)
    (requests : List (List ρ × ℤ)) : follow env serve token requests =
      .ok (walk place after (requests.map fun request => (request.1, clampLimit request.2))) := by
  induction requests generalizing token after with
  | nil => rfl
  | cons request later ih =>
    have hserved : ∃ next, servePage env serve token request.1 request.2 =
        .ok ((page place after request.1 (clampLimit request.2)).1, next) ∧
          Option.Rel (Marks env cursorOf place) next
            (page place after request.1 (clampLimit request.2)).2 := by
      cases hmarks with
      | none => exact h.first request.1 request.2
      | some hmark =>
        obtain ⟨row, rfl, rfl⟩ := hmark
        rw [servePage]
        simp only [decode_encodeCursor, Except.map, bind, Except.bind]
        exact h.later request.1 row request.2
    obtain ⟨next, hserve, hnext⟩ := hserved
    rw [follow, hserve, List.map_cons, walk]
    simp only [bind, Except.bind]
    cases hpage : (page place after request.1 (clampLimit request.2)).2 with
    | none =>
      rw [hpage] at hnext
      cases hnext
      rfl
    | some last =>
      rw [hpage] at hnext
      cases hnext with
      | some hmark =>
        simp only [ih (.some hmark)]
        rfl

end Walks

/-! ### Keyset pages -/

section Keyset

theorem decodeSeek_keys (exprs : List (SortExpr ρ)) (row : ρ) :
    decodeSeek exprs (exprs.map fun e => (e.eval row).map e.str) = .ok (keysOf exprs row) := by
  induction exprs with
  | nil => rfl
  | cons e later ih =>
    rw [List.map_cons]
    cases he : e.eval row with
    | none =>
      simp only [decodeSeek, Option.map_none, ih, bind, Except.bind, pure, Except.pure]
      rw [keysOf, he]
      rfl
    | some value =>
      simp only [decodeSeek, Option.map_some, e.decode_str, Outcome.orRaise, Except.map, ih, bind,
        Except.bind, pure, Except.pure]
      rw [keysOf, he]
      rfl

theorem decodedSeek_keys (exprs : List (SortExpr ρ)) (row : ρ) :
    decodedSeek exprs (exprs.map fun e => (e.eval row).map e.str) = .ok (keysOf exprs row) := by
  rw [decodedSeek, Outcome.check, if_pos (List.length_map _), decodeSeek_keys]
  rfl

theorem filter_seek (row : ρ) (table : List ρ) :
    table.filter (seekLegs rowId asc (rowId row) exprs (keysOf exprs row) true) =
      table.filter fun r =>
        Behind (placeOf rowId asc exprs) (some (placeOf rowId asc exprs row)) r := by
  refine List.filter_congr fun r _ => ?_
  rw [Bool.eq_iff_iff, seekLegs_iff, decide_eq_true_eq]
  constructor
  · rintro ⟨-, h⟩ p hp
    cases hp
    exact h
  · exact fun h => ⟨rfl, h _ rfl⟩

theorem paginateKeyset_serves (env : Env Token) (rowId : ρ → Uuid) (exprs : List (SortExpr ρ))
    (asc : Bool) (scope : Option String) :
    Serves env (keysetCursor rowId exprs scope) (placeOf rowId asc exprs)
      (paginateKeyset env rowId exprs asc scope) := by
  constructor
  · intro table limit
    obtain ⟨next, hcut, hnext⟩ := @cutPage_page ρ Token env _ _ _ _ (keysetCursor rowId exprs scope)
      (clampLimit limit) (ordered_iff rowId asc exprs) none table
    refine ⟨next, ?_, hnext⟩
    rw [KeysetWalk.filter_behind_none] at hcut
    rw [← hcut]
    rfl
  · intro table row limit
    obtain ⟨next, hcut, hnext⟩ := @cutPage_page ρ Token env _ _ _ _ (keysetCursor rowId exprs scope)
      (clampLimit limit) (ordered_iff rowId asc exprs)
      (some (placeOf rowId asc exprs row)) table
    refine ⟨next, ?_, hnext⟩
    rw [← filter_seek] at hcut
    rw [← hcut, paginateKeyset, refuseWrongCursor, Outcome.check, if_pos ⟨rfl, rfl⟩]
    simp only [seekKeyset, keysetCursor, decodedSeek_keys, Except.map, bind, Except.bind]
    rfl

end Keyset

/-! ### One column -/

section Column

variable {col : SortExpr ρ}

def columnPlace (rowId : ρ → Uuid) (col : SortExpr ρ) (asc : Bool) (row : ρ) :
    Directed asc (WithTop col.Value ×ₗ Uuid) :=
  directed asc (toLex ((col.eval row : WithTop col.Value), rowId row))

theorem columnLeg_iff {row cursorRow : ρ} {v : col.Value} (hv : col.eval cursorRow = some v)
    (hrow : (col.eval row).isSome = true) :
    columnLeg rowId col asc (rowId cursorRow) v row = true ↔
      columnPlace rowId col asc cursorRow < columnPlace rowId col asc row := by
  obtain ⟨w, hw⟩ := Option.isSome_iff_exists.mp hrow
  have hlt : ∀ x y : col.Value, (x : WithTop col.Value) < y ↔ x < y := fun _ _ => WithTop.coe_lt_coe
  have heq : ∀ x y : col.Value, (x : WithTop col.Value) = y ↔ x = y := fun _ _ => WithTop.coe_inj
  rw [columnPlace, columnPlace, directed_lt, hv, hw]
  cases asc with
  | false =>
    simp only [columnLeg, hw, SortExpr.past, Bool.false_eq_true, if_false, Bool.or_eq_true,
      Bool.and_eq_true, decide_eq_true_eq]
    rw [Prod.Lex.toLex_lt_toLex]
    exact (or_congr (hlt w v) (and_congr_left' (heq w v))).symm
  | true =>
    simp only [columnLeg, hw, SortExpr.past, if_true, Bool.or_eq_true, Bool.and_eq_true,
      decide_eq_true_eq]
    rw [Prod.Lex.toLex_lt_toLex]
    refine (or_congr (hlt v w) (and_congr_left' ((heq v w).trans eq_comm))).symm

theorem columnOrdered_iff (rowId : ρ → Uuid) (asc : Bool)
    (hcol : ∀ row, (col.eval row).isSome = true) (a b : ρ) :
    columnOrdered rowId col asc a b = true ↔
      columnPlace rowId col asc a ≤ columnPlace rowId col asc b := by
  obtain ⟨v, hv⟩ := Option.isSome_iff_exists.mp (hcol a)
  obtain ⟨w, hw⟩ := Option.isSome_iff_exists.mp (hcol b)
  have hlt : ∀ x y : col.Value, (x : WithTop col.Value) < y ↔ x < y := fun _ _ => WithTop.coe_lt_coe
  have heq : ∀ x y : col.Value, (x : WithTop col.Value) = y ↔ x = y := fun _ _ => WithTop.coe_inj
  rw [columnPlace, columnPlace, directed_le, hv, hw]
  cases asc with
  | false =>
    simp only [columnOrdered, hv, hw, SortExpr.past, Bool.false_eq_true, if_false]
    rw [Prod.Lex.toLex_le_toLex]
    refine Iff.trans ?_ (or_congr (hlt w v) (and_congr_left' (heq w v))).symm
    by_cases hvw : v = w
    · subst hvw
      simp
    · simp [hvw, Ne.symm hvw]
  | true =>
    simp only [columnOrdered, hv, hw, SortExpr.past, if_true]
    rw [Prod.Lex.toLex_le_toLex]
    refine Iff.trans ?_ (or_congr (hlt v w) (and_congr_left' (heq v w))).symm
    by_cases hvw : v = w
    · subst hvw
      simp
    · simp [hvw]

theorem paginate_serves (env : Env Token) (rowId : ρ → Uuid)
    (hcol : ∀ row, (col.eval row).isSome = true) (asc : Bool) :
    Serves env (columnCursor rowId col) (columnPlace rowId col asc)
      (paginate env rowId col asc) := by
  constructor
  · intro table limit
    obtain ⟨next, hcut, hnext⟩ := @cutPage_page ρ Token env _ _ _ _ (columnCursor rowId col)
      (clampLimit limit) (columnOrdered_iff rowId asc hcol) none table
    refine ⟨next, ?_, hnext⟩
    rw [KeysetWalk.filter_behind_none] at hcut
    rw [← hcut]
    rfl
  · intro table row limit
    obtain ⟨value, hvalue⟩ := Option.isSome_iff_exists.mp (hcol row)
    obtain ⟨next, hcut, hnext⟩ := @cutPage_page ρ Token env _ _ _ _ (columnCursor rowId col)
      (clampLimit limit) (columnOrdered_iff rowId asc hcol)
      (some (columnPlace rowId col asc row)) table
    refine ⟨next, ?_, hnext⟩
    have hfilter : table.filter (columnLeg rowId col asc (rowId row) value) =
        table.filter fun r => Behind (columnPlace rowId col asc)
          (some (columnPlace rowId col asc row)) r := by
      refine List.filter_congr fun r _ => ?_
      rw [Bool.eq_iff_iff, columnLeg_iff hvalue (hcol r), decide_eq_true_eq]
      exact ⟨fun h p hp => by cases hp; exact h, fun h => h _ rfl⟩
    rw [← hfilter] at hcut
    rw [← hcut, paginate, refuseWrongCursor, Outcome.check, if_pos ⟨rfl, rfl⟩]
    simp only [seekColumn, columnCursor, hvalue, Option.map_some, col.decode_str, Outcome.orRaise,
      Except.map, bind, Except.bind]
    rfl

end Column

/-! ### What a walk serves -/

/-- The rows of a walk over the tables that its requests meet: each row is listed behind the ones
before it, no row whose own sort values stay is listed twice, and a walk that came to the end
listed every row that stood with its values in all the tables. -/
structure Served {κ : Type} (rowId : ρ → Uuid) (key : ρ → κ) (le : ρ → ρ → Bool)
    (requests : List (List ρ × ℤ)) (served : List ρ) (finished : Bool) : Prop where
  sorted : served.Pairwise fun a b => le b a = false
  stood : ∀ r ∈ served, ∃ request ∈ requests, r ∈ request.1
  once : ∀ id, (∀ request ∈ requests, ∀ other ∈ requests, ∀ r ∈ request.1, ∀ r' ∈ other.1,
    rowId r = id → rowId r' = id → key r = key r') → (served.map rowId).count id ≤ 1
  complete : finished = true → ∀ k id,
    (∀ request ∈ requests, ∃ r ∈ request.1, key r = k ∧ rowId r = id) →
      ∃ r ∈ served, key r = k ∧ rowId r = id
  static : ∀ table, (∀ request ∈ requests, request.1 = table) → table.length < requests.length →
    finished = true ∧ served = table.insertionSort fun a b => le a b

theorem exists_two_of_count {served : List ρ} {id : Uuid} (h : 1 < (served.map rowId).count id) :
    ∃ a b, [a, b].Sublist served ∧ rowId a = id ∧ rowId b = id := by
  obtain ⟨pair, hpair, hids⟩ := List.sublist_map_iff.mp (List.replicate_sublist_iff.mpr h)
  obtain ⟨a, b, rfl⟩ : ∃ a b, pair = [a, b] := List.length_eq_two.mp (by
    simpa using (congrArg List.length hids).symm)
  simp only [List.replicate, List.map_cons, List.map_nil, List.cons.injEq, and_true] at hids
  exact ⟨a, b, hpair, hids.1.symm, hids.2.symm⟩

theorem served_walk {π κ : Type} [LinearOrder π] {place : ρ → π} {key : ρ → κ}
    {le : ρ → ρ → Bool} {requests : List (List ρ × ℤ)}
    (hle : ∀ a b, le a b = true ↔ place a ≤ place b)
    (hplace : ∀ a b, place a = place b ↔ key a = key b ∧ rowId a = rowId b)
    (hids : ∀ request ∈ requests, (request.1.map rowId).Nodup) :
    Served rowId key le requests
      (walk place none (requests.map fun request => (request.1, clampLimit request.2))).1
      (walk place none (requests.map fun request => (request.1, clampLimit request.2))).2 := by
  let asked := requests.map fun request => (request.1, clampLimit request.2)
  have hplaced : ∀ request ∈ asked, Placed place request.1 := by
    intro request hrequest
    obtain ⟨first, hfirst, rfl⟩ := List.mem_map.mp hrequest
    refine (List.pairwise_map.mpr ?_)
    exact (List.pairwise_map.mp (hids first hfirst)).imp fun hid heq => hid ((hplace _ _).mp heq).2
  have hlimit : ∀ request ∈ asked, 0 < request.2 := by
    intro request hrequest
    obtain ⟨first, -, rfl⟩ := List.mem_map.mp hrequest
    simp only [clampLimit, maxPageLimit]
    omega
  have hstood : ∀ {r}, r ∈ (walk place none asked).1 → ∃ request ∈ requests, r ∈ request.1 := by
    intro r hr
    obtain ⟨-, request, hrequest, hmem⟩ := KeysetWalk.walk_behind hr
    obtain ⟨first, hfirst, rfl⟩ := List.mem_map.mp hrequest
    exact ⟨first, hfirst, hmem⟩
  have hsorted := KeysetWalk.walk_sorted none hplaced
  constructor
  · refine hsorted.imp fun hlt => ?_
    rw [← Bool.not_eq_true, hle]
    exact not_le.mpr hlt
  · exact fun r => hstood
  · intro id hstays
    by_contra htwice
    -- A second listing has the place of the first, and the walk goes up.
    obtain ⟨a, b, hpair, ha, hb⟩ := exists_two_of_count (Nat.lt_of_not_le htwice)
    obtain ⟨request, hrequest, hmem⟩ := hstood (r := a) (hpair.subset (by simp))
    obtain ⟨other, hother, hmem'⟩ := hstood (r := b) (hpair.subset (by simp))
    have hkey := hstays request hrequest other hother a hmem b hmem' ha hb
    have hlt : place a < place b := by simpa using hsorted.sublist hpair
    exact hlt.ne ((hplace a b).mpr ⟨hkey, ha.trans hb.symm⟩)
  · intro hfinished k id hall
    cases requests with
    | nil => cases hfinished
    | cons request later =>
      obtain ⟨r, hr, rfl, rfl⟩ := hall request List.mem_cons_self
      have hp : ∀ request ∈ asked, ∃ r' ∈ request.1, place r' = place r := by
        intro other hother
        obtain ⟨first, hfirst, rfl⟩ := List.mem_map.mp hother
        obtain ⟨r', hr', hkey⟩ := hall first hfirst
        exact ⟨r', hr', (hplace _ _).mpr hkey⟩
      obtain ⟨r', hr', heq⟩ := KeysetWalk.walk_complete hplaced hlimit hfinished hp
        fun q hq => by cases hq
      exact ⟨r', hr', (hplace _ _).mp heq⟩
  · intro table hstatic hmany
    have hall : behind place none table = sortBy place table := by
      rw [behind, KeysetWalk.filter_behind_none]
    have hstatic' : ∀ request ∈ asked, request.1 = table ∧ 0 < request.2 := by
      intro request hrequest
      refine ⟨?_, hlimit request hrequest⟩
      obtain ⟨first, hfirst, rfl⟩ := List.mem_map.mp hrequest
      exact hstatic first hfirst
    have hplaced' : Placed place table := by
      obtain ⟨request, hrequest⟩ := List.exists_mem_of_length_pos
        (lt_of_le_of_lt (Nat.zero_le _) hmany)
      exact hstatic request hrequest ▸ hplaced (request.1, clampLimit request.2)
        (List.mem_map_of_mem hrequest)
    have hwalk := KeysetWalk.walk_static hplaced' hstatic' (by
      rw [hall, List.length_map]
      exact lt_of_eq_of_lt (List.perm_insertionSort _ table).length_eq hmany)
    rw [show requests.map (fun request => (request.1, clampLimit request.2)) = asked from rfl,
      hwalk]
    exact ⟨rfl, hall.trans (insertionSort_eq hle table).symm⟩

/-- **A walk over pages.** Every cursor is accepted, and the walk serves the rows of the sort. -/
theorem walks_served [DecidableEq Token] (env : Env Token) (rowId : ρ → Uuid) (asc : Bool)
    (requests : List (List ρ × ℤ)) (hids : ∀ request ∈ requests, (request.1.map rowId).Nodup) :
    (∀ exprs scope, ∃ served finished,
      follow env (paginateKeyset env rowId exprs asc scope) none requests =
        .ok (served, finished) ∧
      Served rowId (keysOf exprs) (ordered rowId asc exprs) requests served finished) ∧
    ∀ col : SortExpr ρ, (∀ row, (col.eval row).isSome = true) → ∃ served finished,
      follow env (paginate env rowId col asc) none requests = .ok (served, finished) ∧
      Served rowId col.eval (columnOrdered rowId col asc) requests served finished := by
  constructor
  · intro exprs scope
    refine ⟨_, _, follow_walk (paginateKeyset_serves env rowId exprs asc scope) .none requests, ?_⟩
    refine served_walk (ordered_iff rowId asc exprs) (fun a b => ?_) hids
    rw [placeOf, placeOf, toLex_inj, Prod.mk.injEq, seekPlace_injective.eq_iff]
  · intro col hcol
    refine ⟨_, _, follow_walk (paginate_serves env rowId hcol asc) .none requests, ?_⟩
    refine served_walk (columnOrdered_iff rowId asc hcol) (fun a b => ?_) hids
    rw [columnPlace, columnPlace, directed_injective.eq_iff]
    exact toLex_inj.trans (Prod.mk.injEq ..).to_iff

/-! ### A sample -/

def sampleEnv : Env Payload where
  dumps payload := payload
  loads payload := .ok payload
  loads_dumps _ := rfl
  uuidStr id := String.ofList (List.replicate id '0')
  readUuid text := some text.length
  readUuid_str id := by simp

/-- A part with its spec, where it has one. -/
abbrev SpecRow : Type := Uuid × Option ℕ

def specExpr : SortExpr SpecRow where
  Value := ℕ
  order := inferInstance
  eval row := row.2
  str value := String.ofList (List.replicate value '0')
  decode text := some text.length
  decode_str value := by simp

def idExpr : SortExpr SpecRow where
  Value := Uuid
  order := inferInstance
  eval row := some row.1
  str id := String.ofList (List.replicate id '0')
  decode text := some text.length
  decode_str id := by simp

/-- A part is added behind the first page, and one without the spec is deleted before it is met. -/
def sampleRequests : List (List SpecRow × ℤ) :=
  [([(1, none), (2, some 200), (3, some 100), (4, none)], 2),
    ([(5, some 300), (1, none), (2, some 200), (3, some 100)], 2)]

theorem walks_served_sample : (∃ served finished,
      follow sampleEnv (paginateKeyset sampleEnv Prod.fst [specExpr] true none) none
        sampleRequests = .ok (served, finished) ∧
      Served Prod.fst (keysOf [specExpr]) (ordered Prod.fst true [specExpr]) sampleRequests
        served finished) ∧
    ∃ served finished,
      follow sampleEnv (paginate sampleEnv Prod.fst idExpr true) none sampleRequests =
        .ok (served, finished) ∧
      Served Prod.fst idExpr.eval (columnOrdered Prod.fst idExpr true) sampleRequests
        served finished := by
  have hids : ∀ request ∈ sampleRequests, (request.1.map Prod.fst).Nodup := by decide
  have hwalks := walks_served sampleEnv Prod.fst true sampleRequests hids
  exact ⟨hwalks.1 [specExpr] none, hwalks.2 idExpr fun _ => rfl⟩

end StockManager.Pagination
