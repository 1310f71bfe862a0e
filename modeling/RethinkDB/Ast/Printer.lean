import Mathlib.Data.Int.Notation
import Mathlib.Data.List.Basic
import RethinkDB.Lib.Except

/-! `QueryPrinter` of `rethinkdb/errors.py`, and the methods `compose` of `rethinkdb/ast.py` that it
puts a query together with. -/
namespace RethinkDB.Ast.Printer
open RethinkDB.Lib

/-- What an iteration over a query's text yields: a character of a `str`, or an item of a list. -/
abbrev Token := List Char

inductive Intsp where
  | str (s : List Char)
  | list (tokens : List Token)

/-- A text under way: a `str`, a list, or the class `T`. -/
inductive T (α : Type) where
  | str (s : List Char)
  | list (items : List α)
  | seq (seq : List (T α)) (intsp : Intsp)

variable {α : Type}

/-- `iter` of a separator; `token` makes an item of a token. -/
def Intsp.iter (token : Token → List α) : Intsp → List α
  | str s => s.flatMap fun c => token [c]
  | list tokens => tokens.flatMap token

mutual

def T.iter (token : Token → List α) : T α → List α
  | .str s => s.flatMap fun c => token [c]
  | .list items => items
  | .seq ts intsp => iterSeq token (intsp.iter token) ts

def iterSeq (token : Token → List α) (intsp : List α) : List (T α) → List α
  | [] => []
  | t :: ts => t.iter token ++ iterRest token intsp ts

def iterRest (token : Token → List α) (intsp : List α) : List (T α) → List α
  | [] => []
  | t :: ts => intsp ++ t.iter token ++ iterRest token intsp ts

end

/-- `T(*ts)`. -/
def T.cat (ts : List (T α)) : T α := .seq ts (.str [])

def T.commas (ts : List (T α)) : T α := .seq ts (.str ", ".toList)

def text (s : String) : T α := .str s.toList

/-- The subclasses of `RqlBiOperQuery`. -/
inductive BiOp where
  | eq | ne | lt | le | gt | ge | add | sub | mul | div | mod
  deriving Repr, DecidableEq

def BiOp.statement : BiOp → String
  | eq => "=="
  | ne => "!="
  | lt => "<"
  | le => "<="
  | gt => ">"
  | ge => ">="
  | add => "+"
  | sub => "-"
  | mul => "*"
  | div => "/"
  | mod => "%"

/-- The subclasses of `RqlBoolOperQuery`. -/
inductive BoolOp where
  | or | and | bitAnd | bitOr | bitXor | bitSal | bitSar
  deriving Repr, DecidableEq

def BoolOp.statement : BoolOp → String
  | or => "or_"
  | and => "and_"
  | bitAnd => "bit_and"
  | bitOr => "bit_or"
  | bitXor => "bit_xor"
  | bitSal => "bit_sal"
  | bitSar => "bit_sar"

/-- `st_infix`, which only two of them have. -/
def BoolOp.stInfix : BoolOp → Option Char
  | or => some '|'
  | and => some '&'
  | _ => none

/-- The class of a term, with its fields besides the arguments: `data` is the `repr` of a `Datum`,
`vrs` are those of the ids of the variables. `topLevel` and `method` stand for the subclasses of
`RqlTopLevelQuery` and `RqlMethodQuery` with that statement, `binaryData` for a `Binary` of
bytes. -/
inductive Class where
  | datum (data : List Char)
  | makeArray
  | makeObj
  | var
  | implicitVar
  | not
  | boolOper (op : BoolOp) (isInfix : Bool)
  | biOper (op : BiOp)
  | topLevel (statement : String)
  | method (statement : String)
  | bracket (statement : String) (bracketOperator : Bool)
  | slice (bracketOperator : Bool)
  | funCall
  | table
  | func (vrs : List (List Char))
  | binaryData
  deriving Repr, DecidableEq

inductive Term where
  | node (cls : Class) (args : List Term) (optargs : List (List Char × Term))

def Term.cls : Term → Class
  | node cls _ _ => cls

inductive PrintExn where
  | index | type | attribute
  deriving Repr, DecidableEq

/-! ### `compose` -/

def Class.isDatum : Class → Bool
  | datum _ => true
  | _ => false

def Class.needsWrap : Class → Bool
  | datum _ | makeArray | makeObj => true
  | _ => false

def Class.isDB (cls : Class) : Bool := cls = topLevel "db"

def wrapIf (wrap : Bool) (arg : T α) : T α :=
  if wrap then .cat [text "r.expr(", arg, text ")"] else arg

def wrapped (selfArgs : List Class) (args : List (T α)) : List (T α) :=
  selfArgs.zipWith (fun cls arg => wrapIf cls.needsWrap arg) args

/-- `[T(k, "=", v) for k, v in dict_items(optargs)]`. -/
def keyed (optargs : List (List Char × T α)) : List (T α) :=
  optargs.map fun o => .cat [.str o.1, text "=", o.2]

def concatVar : T α → Except PrintExn (T α)
  | .str s => .ok (.str ("var_".toList ++ s))
  | _ => .error .type

/-- `RqlMethodQuery.compose`. -/
def composeMethod (statement : String) (selfArgs : List Class) (args : List (T α))
    (optargs : List (List Char × T α)) : Except PrintExn (T α) :=
  match selfArgs, args with
  | cls :: _, arg :: restargs =>
    .ok (.cat [wrapIf cls.needsWrap arg, text ".", text statement, text "(",
      .commas (restargs ++ keyed optargs), text ")"])
  | _, _ => .ok (.cat [text "r.", text statement, text "()"])

section Compose
-- `repr` of the key of an object, and what `Var` makes of its argument
variable (repr : List Char → List Char) (var : T α → Except PrintExn (T α))

/-- `compose`: `selfArgs` are the classes of `self._args`. -/
def compose (cls : Class) (selfArgs : List Class) (args : List (T α))
    (optargs : List (List Char × T α)) : Except PrintExn (T α) :=
  match cls with
  | .datum data => .ok (.str data)
  | .makeArray => .ok (.cat [text "[", .commas args, text "]"])
  | .makeObj =>
    let items := optargs.map fun o => T.cat [.str (repr o.1), text ": ", o.2]
    .ok (.cat [text "r.expr(\x7b", .commas items, text "\x7d)"])
  | .var => match args with
    | arg :: _ => var arg
    | [] => .error .index
  | .implicitVar => .ok (text "r.row")
  | .not => match selfArgs, args with
    | cls :: _, arg :: _ => .ok (.cat [text "(~", wrapIf cls.isDatum arg, text ")"])
    | _, _ => .error .index
  | .boolOper op isInfix =>
    let targs := wrapped selfArgs args
    if isInfix then match op.stInfix with
      | some c => .ok (.cat [text "(", .seq targs (.list [[' '], [c], [' ']]), text ")"])
      | none => .error .attribute
    else .ok (.cat [text "r.", text op.statement, text "(", .commas targs, text ")"])
  | .biOper op =>
    let intsp := Intsp.list [[' '], op.statement.toList, [' ']]
    .ok (.cat [text "(", .seq (wrapped selfArgs args) intsp, text ")"])
  | .topLevel statement =>
    .ok (.cat [text "r.", text statement, text "(", .commas (args ++ keyed optargs), text ")"])
  | .method statement => composeMethod statement selfArgs args optargs
  | .bracket statement bracketOperator =>
    if bracketOperator then match selfArgs, args with
      | cls :: _, arg :: restargs =>
        .ok (.cat [wrapIf cls.needsWrap arg, text "[", .seq restargs (.list [[',']]), text "]"])
      | _, _ => .error .index
    else composeMethod statement selfArgs args optargs
  | .slice bracketOperator =>
    if bracketOperator then match selfArgs, args with
      | cls :: _, arg :: start :: stop :: _ =>
        .ok (.cat [wrapIf cls.needsWrap arg, text "[", start, text ":", stop, text "]"])
      | _, _ => .error .index
    else composeMethod "slice" selfArgs args optargs
  | .funCall => match selfArgs, args with
    | [_, cls], [fn, arg] => .ok (.cat [wrapIf cls.isDatum arg, text ".do(", fn, text ")"])
    | _, fn :: restargs =>
      .ok (.cat [text "r.do(", .commas [.commas restargs, fn], text ")"])
    | _, [] => .error .index
  | .table => match selfArgs, args with
    | cls :: _, arg :: restargs =>
      let restargs := restargs ++ keyed optargs
      if cls.isDB then .ok (.cat [arg, text ".table(", .commas restargs, text ")"])
      else .ok (.cat [text "r.table(", .commas (arg :: restargs), text ")"])
    | _, _ => .error .index
  | .func vrs => match args with
    | _ :: body :: _ =>
      let names := vrs.map fun id => T.str ("var_".toList ++ id)
      .ok (.cat [text "lambda ", .commas names, text ": ", body])
    | _ => .error .index
  | .binaryData => .ok (.cat [text "r.", text "binary", text "(bytes(<data>))"])

end Compose

/-! ### `QueryPrinter` -/

/-- A frame of a backtrace: the position of an argument, or the name of an optional one. -/
inductive Frame where
  | pos (i : ℤ)
  | opt (key : List Char)
  deriving Repr, DecidableEq

section Printer
variable (repr : List Char → List Char)

mutual

def composeTerm : Term → Except PrintExn (T α)
  | .node cls args optargs => do
    let composed ← composeArgs args
    let composedOptargs ← composeOptargs optargs
    compose repr concatVar cls (args.map Term.cls) composed composedOptargs

def composeArgs : List Term → Except PrintExn (List (T α))
  | [] => .ok []
  | arg :: args => do
    let composed ← composeTerm arg
    return composed :: (← composeArgs args)

def composeOptargs : List (List Char × Term) → Except PrintExn (List (List Char × T α))
  | [] => .ok []
  | (key, arg) :: optargs => do
    let composed ← composeTerm arg
    return (key, composed) :: (← composeOptargs optargs)

end

/-- The arguments of a term, the one a frame leads to by `target` and the others by
`compose_term`. -/
def composeAround (target : Term → Except PrintExn (T α)) (frame : Frame) (args : List Term)
    (optargs : List (List Char × Term)) :
    Except PrintExn (List (T α) × List (List Char × T α)) := do
  let composed ← args.zipIdx.mapM fun (arg, i) =>
    if frame = .pos i then target arg else composeTerm repr arg
  let composedOptargs ← optargs.mapM fun (key, arg) => do
    let composed ← if frame = .opt key then target arg else composeTerm repr arg
    return (key, composed)
  return (composed, composedOptargs)

def tokens (t : T Token) : List Token := t.iter fun token => [token]

def caret : Token := ['^']

/-- `" " if i != "^" else "^"`. -/
def mask (token : Token) : Token := if token ≠ caret then [' '] else caret

def composeCarrots : List Frame → Term → Except PrintExn (List Token)
  | [], term => do
    let t ← composeTerm repr term
    return (tokens t).map fun _ => caret
  | frame :: frames, .node cls args optargs => do
    let target (arg : Term) := (composeCarrots frames arg).map T.list
    let (composed, composedOptargs) ← composeAround repr target frame args optargs
    let t ← compose repr concatVar cls (args.map Term.cls) composed composedOptargs
    return (tokens t).map mask

def printQuery (root : Term) : Except PrintExn (List Char) := do
  let t ← composeTerm repr root
  return (tokens t).flatten

def printCarrots (root : Term) (frames : List Frame) : Except PrintExn (List Char) := do
  let carrots ← composeCarrots repr frames root
  return carrots.flatten

end Printer
end RethinkDB.Ast.Printer
