import RethinkDB.Lib.Base64
import RethinkDB.Lib.JsonText
import RethinkDB.Lib.Text

/-! Python values, the terms `expr` makes of them and the JSON those are sent as, after
`rethinkdb/ast.py`. -/
namespace RethinkDB.Ast
open RethinkDB.Lib

inductive Scalar where
  | none
  | bool (b : Bool)
  | int (n : ℤ)
  | float (x : PyFloat)
  | str (s : String)
  deriving Repr, DecidableEq

/-- `bytes` stands for its subclass `RqlBinary` as well. -/
inductive Value where
  | scalar (val : Scalar)
  | bytes (data : Bytes)
  | list (items : List Value)
  | dict (items : List (String × Value))
  deriving Repr

/-- `compile` is a `ReqlDriverCompileError`. The next three are the `ReqlDriverError`s
"pseudo-type {type} object {obj} does not have the expected field {field}",
"Unknown {option} run option {format}" and "Unknown pseudo-type {type}"; the rest are Python's. -/
inductive AstExn where
  | compile (message : String)
  | missingField (type field : String) (obj : List (String × Value))
  | unknownFormat (option format : String)
  | unknownPseudotype (type : Value)
  | json | attribute | value
  deriving Repr

/-- What `base64.b64encode` returns. -/
structure Base64Data where
  bytes : Bytes
  ascii : Ascii bytes
  deriving Repr

def Base64Data.b64encode (data : Bytes) : Base64Data where
  bytes := Base64.encode data
  ascii b hb := Base64.toNat_lt_of_alphabet (Base64.encode_alphabet data b hb)

/-- `decode("utf-8")`, which cannot fail here. -/
def Base64Data.text (data : Base64Data) : String := ofCodes data.bytes

/-- The classes `Datum`, `MakeArray`, `MakeObj` and `Binary`. -/
inductive Term where
  | datum (data : Scalar)
  | makeArray (args : List Term)
  | makeObj (optargs : List (String × Term))
  | binary (base64Data : Base64Data)
  deriving Repr

mutual

def expr (val : Value) (nestingDepth : ℤ) : Except AstExn Term :=
  if nestingDepth ≤ 0 then .error (.compile "Nesting depth limit exceeded.")
  else match val with
    | .scalar data => .ok (.datum data)
    | .bytes data => .ok (.binary (.b64encode data))
    | .dict items => (exprFields items (nestingDepth - 1)).map .makeObj
    | .list items => (exprItems items (nestingDepth - 1)).map .makeArray

/-- `[expr(v, nesting_depth) for v in val]`. -/
def exprItems (items : List Value) (nestingDepth : ℤ) : Except AstExn (List Term) :=
  match items with
  | [] => .ok []
  | item :: items => do
    let term ← expr item nestingDepth
    return term :: (← exprItems items nestingDepth)

/-- The loop over `dict_items(val)`. -/
def exprFields (items : List (String × Value)) (nestingDepth : ℤ) :
    Except AstExn (List (String × Term)) :=
  match items with
  | [] => .ok []
  | (key, item) :: items => do
    let term ← expr item nestingDepth
    return (key, term) :: (← exprFields items nestingDepth)

end

def Scalar.json : Scalar → Json
  | none => .null
  | bool b => .bool b
  | int n => .int n
  | float x => .float x
  | str s => .str s

section Encoder
-- `P_TERM.MAKE_ARRAY`
variable (MAKE_ARRAY : ℤ)

mutual

/-- What `build` returns, with the terms in it as the encoder goes on to write them. -/
def Term.build : Term → Json
  | .datum data => data.json
  | .makeArray args => .arr [.int MAKE_ARRAY, .arr (buildArgs args)]
  | .makeObj optargs => .obj (buildOptargs optargs)
  | .binary data => .obj [("$reql_type$", .str "BINARY"), ("data", .str data.text)]

def buildArgs : List Term → List Json
  | [] => []
  | term :: args => term.build :: buildArgs args

def buildOptargs : List (String × Term) → List (String × Json)
  | [] => []
  | (key, term) :: optargs => (key, term.build) :: buildOptargs optargs

end

/-- `ReQLEncoder().encode(term)`. -/
def encode (floatRepr : PyFloat → List Char) (term : Term) : List Char :=
  (term.build MAKE_ARRAY).render floatRepr

end Encoder
end RethinkDB.Ast
