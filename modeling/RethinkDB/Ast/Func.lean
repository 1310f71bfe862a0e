import Mathlib.Data.List.Basic
import RethinkDB.Lib.Machine

/-! `Func`, `func_wrap` and `FunCall`: Python programs of nested lambdas, the terms they build
with ids drawn from one counter, and what either means. -/
namespace RethinkDB.Ast.Lambda
open RethinkDB.Lib

/-- `O` is what the terms apart from functions and variables are made with, constants and
`IMPLICIT_VAR` apart from `row` included. -/
structure Signature where
  O : Type
  funcall : O

/-- A ReQL term: `func ids body` is `FUNC([MAKE_ARRAY(ids), body])`. -/
inductive Term (S : Signature) where
  | var (id : ℕ)
  | implicitVar
  | op (o : S.O) (args : List (Term S))
  | func (ids : List ℕ) (body : Term S)

/-- A Python expression: `param d j` is the `j`-th parameter of the lambda `d` levels out, `object`
one of the objects built before, and `share val body` builds an object for `body` to use. -/
inductive Py (S : Signature) where
  | param (depth index : ℕ)
  | object (i : ℕ)
  | row
  | op (o : S.O) (args : List (Py S))
  | lam (arity : ℕ) (body : Py S)
  | funcWrap (val : Py S)
  | funCall (args : List (Py S)) (fn : Py S)
  | share (val body : Py S)

variable {S : Signature}

mutual

def Term.ivarScan : Term S → Bool
  | .var _ => false
  | .implicitVar => true
  | .op _ args => anyIvar args
  | .func _ body => body.ivarScan

def anyIvar : List (Term S) → Bool
  | [] => false
  | arg :: args => arg.ivarScan || anyIvar args

end

/-! ### Building -/

/-- A construction that is under way: `func n k` is a `Func.__init__` for `n` parameters, which
goes on once it has drawn an id for each. -/
inductive Build (α : Type) where
  | done (a : α)
  | func (arity : ℕ) (k : List ℕ → Build α)

namespace Build
variable {α β : Type}

def bind : Build α → (α → Build β) → Build β
  | done a, f => f a
  | func arity k, f => func arity fun ids => (k ids).bind f

instance : Monad Build where
  pure := done
  bind := bind

/-- The ids of one `Func`. -/
def draw (arity : ℕ) : Build (List ℕ) := func arity done

end Build

/-- `func_wrap` of a term. -/
def funcWrap (val : Term S) : Build (Term S) :=
  if val.ivarScan then do
    let ids ← Build.draw 1
    return .func ids val
  else pure val

mutual

/-- `expr` of a Python expression, with the ids of the parameters in scope, innermost first, and
the objects there are. -/
def Py.build (env : List (List ℕ)) (objects : List (Term S)) : Py S → Build (Term S)
  | .param depth index => pure (.var ((env.getD depth []).getD index 0))
  | .object i => pure (objects.getD i .implicitVar)
  | .row => pure .implicitVar
  | .op o args => do
    let args ← buildArgs env objects args
    return .op o args
  | .lam arity body => do
    let ids ← Build.draw arity
    let body ← body.build (ids :: env) objects
    return .func ids body
  | .funcWrap val => do
    let val ← val.build env objects
    Lambda.funcWrap val
  | .funCall args fn => do
    let fn ← fn.build env objects
    let fn ← Lambda.funcWrap fn
    let args ← buildArgs env objects args
    return .op S.funcall (fn :: args)
  | .share val body => do
    let val ← val.build env objects
    body.build env (objects ++ [val])

def buildArgs (env : List (List ℕ)) (objects : List (Term S)) :
    List (Py S) → Build (List (Term S))
  | [] => pure []
  | arg :: args => do
    let arg ← arg.build env objects
    let args ← buildArgs env objects args
    return arg :: args

end

/-! ### Meaning -/

/-- Values to take terms and programs to: what becomes of a function of the values is up to
`func`. -/
structure Algebra (S : Signature) (D : Type) where
  row : D
  op : S.O → List D → D
  func : (arity : ℕ) → ((Fin arity → D) → D) → D

variable {D : Type} (A : Algebra S D)

/-- The environment inside a `FUNC` that lists `ids`. -/
def bindIds (ids : List ℕ) (vals : Fin ids.length → D) (ρ : ℕ → D) : ℕ → D :=
  fun id => if h : id ∈ ids then vals ⟨ids.idxOf id, List.idxOf_lt_length_of_mem h⟩ else ρ id

mutual

/-- A term in an environment: a variable is bound by the innermost `FUNC` around that lists it. -/
def Term.eval (ρ : ℕ → D) : Term S → D
  | .var id => ρ id
  | .implicitVar => A.row
  | .op o args => A.op o (evalArgs ρ args)
  | .func ids body => A.func ids.length fun vals => body.eval (bindIds ids vals ρ)

def evalArgs (ρ : ℕ → D) : List (Term S) → List D
  | [] => []
  | arg :: args => arg.eval ρ :: evalArgs ρ args

end

/-- The arguments of a lambda by position. -/
def frame {arity : ℕ} (vals : Fin arity → D) (default : D) : ℕ → D :=
  fun j => if h : j < arity then vals ⟨j, h⟩ else default

mutual

/-- Whether the program has `r.row` in it; `rows` says it of the objects. -/
def Py.hasRow (rows : List Bool) : Py S → Bool
  | .param _ _ => false
  | .object i => rows.getD i true
  | .row => true
  | .op _ args => anyRow rows args
  | .lam _ body => body.hasRow rows
  | .funcWrap val => val.hasRow rows
  | .funCall args fn => fn.hasRow rows || anyRow rows args
  | .share val body => body.hasRow (rows ++ [val.hasRow rows])

def anyRow (rows : List Bool) : List (Py S) → Bool
  | [] => false
  | arg :: args => arg.hasRow rows || anyRow rows args

end

/-- What `func_wrap` makes of a value with `r.row` in it: a function that ignores its argument. -/
def wrapped (hasRow : Bool) (val : D) : D := if hasRow then A.func 1 fun _ => val else val

mutual

/-- The Python program applied as it stands: a lambda is the function of its arguments. `objects`
are the objects, each with whether it has `r.row` in it. -/
def Py.denote (frames : List (ℕ → D)) (objects : List (D × Bool)) : Py S → D
  | .param depth index => frames.getD depth (fun _ => A.row) index
  | .object i => (objects.getD i (A.row, true)).1
  | .row => A.row
  | .op o args => A.op o (denoteArgs frames objects args)
  | .lam arity body => A.func arity fun vals => body.denote (frame vals A.row :: frames) objects
  | .funcWrap val =>
    wrapped A (val.hasRow (objects.map Prod.snd)) (val.denote frames objects)
  | .funCall args fn =>
    A.op S.funcall (wrapped A (fn.hasRow (objects.map Prod.snd)) (fn.denote frames objects) ::
      denoteArgs frames objects args)
  | .share val body =>
    body.denote frames
      (objects ++ [(val.denote frames objects, val.hasRow (objects.map Prod.snd))])

def denoteArgs (frames : List (ℕ → D)) (objects : List (D × Bool)) : List (Py S) → List D
  | [] => []
  | arg :: args => arg.denote frames objects :: denoteArgs frames objects args

end

mutual

/-- Every parameter is one of an enclosing lambda, every object has been built; `arities` are those
of the enclosing lambdas. -/
def Py.Scoped (arities : List ℕ) (objects : ℕ) : Py S → Prop
  | .param depth index => ∃ arity, arities[depth]? = some arity ∧ index < arity
  | .object i => i < objects
  | .row => True
  | .op _ args => ScopedArgs arities objects args
  | .lam arity body => body.Scoped (arity :: arities) objects
  | .funcWrap val => val.Scoped arities objects
  | .funCall args fn => fn.Scoped arities objects ∧ ScopedArgs arities objects args
  | .share val body => val.Scoped arities objects ∧ body.Scoped arities (objects + 1)

def ScopedArgs (arities : List ℕ) (objects : ℕ) : List (Py S) → Prop
  | [] => True
  | arg :: args => arg.Scoped arities objects ∧ ScopedArgs arities objects args

end

/-! ### Threads -/

/-- Where a thread is inside `Func.__init__`: around the lock that guards the counter. -/
inductive Lock where
  | outside
  | held
  | read (varId : ℕ)
  | taken (varId : ℕ)
  deriving Repr, DecidableEq

/-- A thread builds the term of one program, which may use the first `uses` objects; `vrids` are
the ids its current `Func` has so far. -/
structure Thread (S : Signature) where
  program : Py S
  uses : ℕ
  todo : Build (Term S)
  vrids : List ℕ
  lock : Lock

/-- A term that has been built, with where it came from. -/
structure Object (S : Signature) where
  program : Py S
  uses : ℕ
  term : Term S

/-- `funcs` is the history of the ids of the `Func` objects. -/
structure World (S : Signature) where
  nextVarId : ℕ
  threads : List (Thread S)
  objects : List (Object S)
  funcs : List (List ℕ)

def World.init : World S := ⟨1, [], [], []⟩

def World.Unlocked (w : World S) : Prop := ∀ t ∈ w.threads, t.lock = .outside

/-- A thread that starts on a program, which may use all objects there are. -/
def Thread.start (p : Py S) (objects : List (Object S)) : Thread S where
  program := p
  uses := objects.length
  todo := p.build [] (objects.map Object.term)
  vrids := []
  lock := .outside

inductive Step : World S → World S → Prop
  | start {w : World S} {p : Py S} : p.Scoped [] w.objects.length →
      Step w { w with threads := w.threads ++ [Thread.start p w.objects] }
  | acquire {w : World S} {before after t arity k} : w.threads = before ++ t :: after →
      t.todo = .func arity k → t.vrids.length < arity → w.Unlocked →
      Step w { w with threads := before ++ { t with lock := .held } :: after }
  | read {w : World S} {before after t} : w.threads = before ++ t :: after → t.lock = .held →
      Step w { w with threads := before ++ { t with lock := .read w.nextVarId } :: after }
  | increment {w : World S} {before after t varId} : w.threads = before ++ t :: after →
      t.lock = .read varId →
      Step w { w with
        nextVarId := w.nextVarId + 1
        threads := before ++ { t with lock := .taken varId } :: after }
  | release {w : World S} {before after t varId} : w.threads = before ++ t :: after →
      t.lock = .taken varId →
      Step w { w with
        threads := before ++ { t with lock := .outside, vrids := t.vrids ++ [varId] } :: after }
  | made {w : World S} {before after t arity k} : w.threads = before ++ t :: after →
      t.todo = .func arity k → t.vrids.length = arity → t.lock = .outside →
      Step w { w with
        funcs := w.funcs ++ [t.vrids]
        threads := before ++ { t with todo := k t.vrids, vrids := [] } :: after }
  | finish {w : World S} {before after t term} : w.threads = before ++ t :: after →
      t.todo = .done term →
      Step w { w with
        threads := before ++ after
        objects := w.objects ++ [⟨t.program, t.uses, term⟩] }

def machine (S : Signature) : Machine (World S) Unit where
  init w := w = World.init
  step w _ w' := Step w w'

/-! ### What the objects stand for -/

/-- An object's value, and whether it has `r.row` in it, from those of the objects it may use. -/
def Object.meaning (vals : List (D × Bool)) (o : Object S) : D × Bool :=
  (o.program.denote A [] (vals.take o.uses), o.program.hasRow ((vals.take o.uses).map Prod.snd))

/-- The values of the programs behind the objects, in order. -/
def meanings (objects : List (Object S)) : List (D × Bool) :=
  objects.foldl (fun vals o => vals ++ [o.meaning A vals]) []

/-- A term without names: `bound level index` is the `index`-th parameter of the function that is
`level` functions deep. -/
inductive Nameless (S : Signature) where
  | free (id : ℕ)
  | bound (level index : ℕ)
  | implicitVar
  | op (o : S.O) (args : List (Nameless S))
  | lam (arity : ℕ) (body : Nameless S)

/-- The algebra that writes binders down; a value is what to write at a depth. -/
def binders (S : Signature) : Algebra S (ℕ → Nameless S) where
  row := fun _ => .implicitVar
  op o args := fun depth => .op o (args.map fun arg => arg depth)
  func arity f := fun depth =>
    .lam arity (f (fun j _ => .bound depth j) (depth + 1))

/-- The term with every variable resolved by the innermost `FUNC` that lists it. -/
def Term.resolve (t : Term S) : Nameless S := t.eval (binders S) (fun id _ => .free id) 0

end RethinkDB.Ast.Lambda
