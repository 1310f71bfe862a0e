import Mathlib.Data.List.Basic
import RethinkDB.Ast.Term

/-! `query[start:stop]` of `rethinkdb/ast.py`, and what the term that it builds selects. -/
namespace RethinkDB.Ast

/-- A Python `slice` of integers; `__getitem__` does not look at its step. -/
structure PySlice where
  start : Option ℤ
  stop : Option ℤ

inductive Index where
  | slice (index : PySlice)
  | key (index : Scalar)

/-- An argument of a term: a query, or what `expr` makes of a constant. -/
inductive Arg (Query : Type) where
  | query (query : Query)
  | datum (data : Scalar)

/-- The `P_TERM`s of the subclasses `Slice` and `Bracket`. -/
inductive BracketTerm where
  | SLICE | BRACKET
  deriving DecidableEq

structure BracketQuery (Query : Type) where
  termType : BracketTerm
  args : List (Arg Query)
  optargs : List (String × Scalar)
  bracketOperator : Scalar

variable {Query β : Type}

def BracketQuery.init (termType : BracketTerm) (args : List (Arg Query))
    (optargs : List (String × Scalar)) : BracketQuery Query where
  termType := termType
  args := args
  optargs := optargs.filter fun o => o.1 ≠ "bracket_operator"
  bracketOperator := (optargs.lookup "bracket_operator").getD (.bool false)

def truthy : Option ℤ → Bool
  | some n => n ≠ 0
  | none => false

def optionDatum : Option ℤ → Scalar
  | some n => .int n
  | none => .none

/-- `RqlQuery.__getitem__`. -/
def getitem (self : Query) : Index → BracketQuery Query
  | .slice index =>
    -- `index.start or 0`
    let start := Arg.datum (.int (index.start.getD 0))
    if truthy index.stop then
      .init .SLICE [.query self, start, .datum (optionDatum index.stop)]
        [("bracket_operator", .bool true)]
    else
      .init .SLICE [.query self, start, .datum (.int (-1))]
        [("right_bound", .str "closed"), ("bracket_operator", .bool true)]
  | .key index =>
    .init .BRACKET [.query self, .datum index] [("bracket_operator", .bool true)]

/-! ### What a `SLICE` selects -/

/-- Where an index points in a sequence of this length; `-1` is the last element. -/
def position (length : ℕ) (index : ℤ) : ℤ := if index < 0 then length + index else index

def select (start stop : ℤ) (closed : Bool) (xs : List β) : List β :=
  let stop := position xs.length stop + if closed then 1 else 0
  (xs.take stop.toNat).drop (position xs.length start).toNat

/-- The value of a `SLICE` term; `value` is that of the query it is of. -/
def BracketQuery.eval (value : Query → List β) (query : BracketQuery Query) : Option (List β) :=
  match query.termType, query.args with
  | .SLICE, [.query self, .datum (.int start), .datum (.int stop)] =>
    let closed := query.optargs.lookup "right_bound" = some (.str "closed")
    some (select start stop closed (value self))
  | _, _ => none

/-- `xs[start:stop]`. -/
def pySlice (start stop : Option ℕ) (xs : List β) : List β :=
  (xs.take (stop.getD xs.length)).drop (start.getD 0)

def PySlice.ofNat (start stop : Option ℕ) : PySlice := ⟨start.map (↑), stop.map (↑)⟩

theorem position_natCast (length index : ℕ) : position length index = index :=
  if_neg (by omega)

theorem select_open (start stop : ℕ) (xs : List β) :
    select start stop false xs = (xs.take stop).drop start := by
  simp [select, position_natCast]

theorem select_last (start : ℕ) (xs : List β) : select start (-1) true xs = xs.drop start := by
  have hstop : position xs.length (-1) + 1 = xs.length := by
    rw [position, if_pos (by omega)]
    omega
  simp [select, position_natCast, hstop]

variable (value : Query → List β) (self : Query)

@[simp]
theorem getD_map_natCast (start : Option ℕ) : (start.map (↑)).getD (0 : ℤ) = (start.getD 0 : ℕ) := by
  cases start <;> rfl

theorem getitem_truthy (start : Option ℕ) {stop : ℕ} (hstop : stop ≠ 0) :
    getitem self (.slice (.ofNat start (some stop))) =
      ⟨.SLICE, [.query self, .datum (.int (start.getD 0 : ℕ)), .datum (.int stop)], [],
        .bool true⟩ := by
  have htruthy : truthy ((some stop).map (↑)) = true := by simpa [truthy] using hstop
  simp only [getitem, PySlice.ofNat, htruthy, if_true, getD_map_natCast]
  rfl

theorem getitem_falsy (start : Option ℕ) {stop : Option ℕ} (hstop : stop = none ∨ stop = some 0) :
    getitem self (.slice (.ofNat start stop)) =
      ⟨.SLICE, [.query self, .datum (.int (start.getD 0 : ℕ)), .datum (.int (-1))],
        [("right_bound", .str "closed")], .bool true⟩ := by
  have htruthy : truthy (stop.map (↑)) = false := by
    cases hstop with
    | inl hstop => rw [hstop]; rfl
    | inr hstop => rw [hstop]; rfl
  simp only [getitem, PySlice.ofNat, htruthy, if_false, getD_map_natCast, Bool.false_eq_true]
  rfl

theorem eval_getitem_truthy (start : Option ℕ) {stop : ℕ} (hstop : stop ≠ 0) :
    (getitem self (.slice (.ofNat start (some stop)))).eval value =
      some (((value self).take stop).drop (start.getD 0)) := by
  rw [← select_open, getitem_truthy self start hstop]
  rfl

theorem eval_getitem_falsy (start : Option ℕ) {stop : Option ℕ}
    (hstop : stop = none ∨ stop = some 0) :
    (getitem self (.slice (.ofNat start stop))).eval value =
      some ((value self).drop (start.getD 0)) := by
  rw [← select_last, getitem_falsy self start hstop]
  rfl

/-- A `stop` of zero is taken for an absent one: that shows where there is something to select from
`start` on. -/
theorem eval_getitem_iff (start stop : Option ℕ) :
    (getitem self (.slice (.ofNat start stop))).eval value =
        some (pySlice start stop (value self)) ↔
      stop ≠ some 0 ∨ (value self).length ≤ start.getD 0 := by
  cases stop with
  | none =>
    rw [eval_getitem_falsy value self start (.inl rfl)]
    simp [pySlice]
  | some stop =>
    cases stop with
    | zero =>
      rw [eval_getitem_falsy value self start (.inr rfl)]
      simp [pySlice]
    | succ stop =>
      rw [eval_getitem_truthy value self start stop.succ_ne_zero]
      simp [pySlice]

/-- `query[:0]` on `[1]`. -/
theorem eval_getitem_zero :
    (getitem () (.slice (.ofNat none (some 0)))).eval (fun _ => [1]) ≠
      some (pySlice none (some 0) [1]) := by
  decide

end RethinkDB.Ast
