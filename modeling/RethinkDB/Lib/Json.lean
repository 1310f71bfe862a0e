import Mathlib.Data.Rat.Defs
import Mathlib.Algebra.Order.Ring.Rat

/-! JSON values as Python sees them. -/
namespace RethinkDB.Lib

inductive PyFloat where
  | finite (x : ℚ)
  | infinity (positive : Bool)
  | nan
  deriving Repr, DecidableEq

inductive Json where
  | null
  | bool (b : Bool)
  | int (n : ℤ)
  | float (x : PyFloat)
  | str (s : String)
  | arr (items : List Json)
  | obj (fields : List (String × Json))
  deriving Repr

namespace Json

/-- A number, which a Boolean is too. -/
def number : Json → Option PyFloat
  | bool b => some (.finite (if b then 1 else 0))
  | int n => some (.finite n)
  | float x => some x
  | _ => none

/-- `x <= y` between floats; nothing compares with `nan`. -/
def floatLe : PyFloat → PyFloat → Bool
  | .nan, _ | _, .nan => false
  | .finite x, .finite y => x ≤ y
  | .infinity positive, y => !positive || y == .infinity true
  | .finite _, .infinity positive => positive

/-- `x <= y`, or nothing where Python raises a `TypeError`. -/
def le (x y : Json) : Option Bool := do
  return floatLe (← x.number) (← y.number)

/-- Truth in a condition. -/
def truthy : Json → Bool
  | null => false
  | bool b => b
  | int n => n ≠ 0
  | float x => x ≠ .finite 0
  | str s => s ≠ ""
  | arr items => !items.isEmpty
  | obj fields => !fields.isEmpty

end Json
end RethinkDB.Lib
