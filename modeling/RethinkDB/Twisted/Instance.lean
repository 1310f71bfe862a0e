import Mathlib.Data.Int.Notation
import Mathlib.Data.List.Basic
import RethinkDB.Lib.Machine

/-! The Twisted `ConnectionInstance`: the Deferreds in `_user_queries`, what fires them, and the three
ways a connection ends. Firing a Deferred runs the user's callbacks on the spot, inside the loop that
fires it. -/
namespace RethinkDB.Twisted.Instance
open RethinkDB.Lib

/-- What is on the stack. `handle` is `_handleResponse` while it fires the Deferred of a query and
`extend` while it is inside a cursor. A `close` is in its loop over the cursors, or over
`_user_queries`: then `attached` says that it still goes over the dict that `_user_queries` is, and
`changed` that its dict has grown since the loop began. `noreplyWait` is the token, if it is to wait. -/
inductive Frame where
  | user
  | handle (token : ℤ)
  | extend
  | cursors (noreplyWait : Option ℤ)
  | queries (noreplyWait : Option ℤ) (rest : List (ℤ × ℕ)) (attached changed : Bool)
  deriving Repr, DecidableEq

/-- `hasInstance` says that this is the instance of its `Connection`, `closers` are the Deferreds
whose firing ends a `close`. `deferreds` counts the Deferreds registered so far and `fired` lists
those that were fired; `closed`, whether some `close` has ended, and `lost` are what became of the
connection. -/
structure World where
  hasInstance : Bool
  isOpen : Bool
  closing : Bool
  nextToken : ℤ
  userQueries : List (ℤ × ℕ)
  closers : List ℕ
  stack : List Frame
  deferreds : ℕ
  fired : List ℕ
  closed : Bool
  lost : Bool
  deriving Repr, DecidableEq

def init : World where
  hasInstance := true
  isOpen := true
  closing := false
  nextToken := 0
  userQueries := []
  closers := []
  stack := []
  deferreds := 0
  fired := []
  closed := false
  lost := false

/-- The dict of a loop has one entry more. -/
def Frame.grow : Frame → Frame
  | .queries noreplyWait rest true _ => .queries noreplyWait rest true true
  | frame => frame

/-- `_user_queries` is another dict now. -/
def Frame.detach : Frame → Frame
  | .queries noreplyWait rest _ changed => .queries noreplyWait rest false changed
  | frame => frame

namespace World

/-- `self._user_queries[token] = (query, response_defer)`, under a token that is new. -/
def register (token : ℤ) (w : World) : World :=
  { w with
    userQueries := w.userQueries ++ [(token, w.deferreds)]
    deferreds := w.deferreds + 1
    stack := w.stack.map Frame.grow }

/-- `deferred.callback` and `deferred.errback`: the user's callbacks run next, after those of the
driver. A Deferred that has been fired raises `AlreadyCalledError`. -/
def fire (d : ℕ) (w : World) : Option World :=
  if d ∈ w.fired then none
  else some { w with
    fired := w.fired ++ [d], closed := w.closed || d ∈ w.closers, stack := .user :: w.stack }

/-- `close`, as far as its loop over the cursors. -/
def close (noreplyWait : Option ℤ) (w : World) : World :=
  { w with closing := true, stack := .cursors noreplyWait :: w.stack }

/-- The `except` of `_handleResponse`. -/
def raised (w : World) : World := if w.closing then w else w.close none

/-- `Connection.close`; tokens start again with the next instance. -/
def connClose (noreplyWait : Bool) (w : World) : World :=
  if w.hasInstance then
    { w with hasInstance := false, nextToken := w.nextToken + 1 }.close
      (if noreplyWait then some w.nextToken else none)
  else w

/-- `run_query`, called through a `Connection` that is open. -/
def runQuery (w : World) : World :=
  if w.hasInstance ∧ w.isOpen then
    { w with nextToken := w.nextToken + 1 }.register w.nextToken
  else w

/-- The end of `close`, behind its loops. -/
def endClose (noreplyWait : Option ℤ) (w : World) : World :=
  let w := { w with userQueries := [], stack := w.stack.map Frame.detach }
  match noreplyWait with
  | none => { w with closed := true }
  | some token => { w.register token with closers := w.closers ++ [w.deferreds] }

/-- `_handleResponse`, for a token that is no cursor's. `ok` says that the response decodes and the
Deferred gets something; else an exception is raised before. -/
def respond (token : ℤ) (ok : Bool) (w : World) : World :=
  match w.userQueries.lookup token with
  | some d =>
    if ok then
      match { w with stack := .handle token :: w.stack }.fire d with
      | some w => w
      | none => w.raised
    else w.raised
  -- an exception is raised and caught
  | none => w.raised

/-- The frame on top goes on; nothing, when that is not for it to say. -/
def resume (w : World) : Option World :=
  match w.stack with
  | .handle token :: stack =>
    let w := { w with stack }
    if (w.userQueries.lookup token).isSome then
      some { w with userQueries := w.userQueries.filter fun entry => entry.1 ≠ token }
    else some w.raised
  | .cursors noreplyWait :: stack =>
    some { w with stack := .queries noreplyWait w.userQueries true false :: stack }
  -- the iterator raises `RuntimeError`, and so does `close`
  | .queries _ _ _ true :: stack => some { w with stack }
  | .queries noreplyWait [] _ false :: stack => some ({ w with stack }.endClose noreplyWait)
  | .queries noreplyWait ((_, d) :: rest) attached false :: stack =>
    let w := { w with stack := .queries noreplyWait rest attached false :: stack }
    some ((w.fire d).getD w)
  | _ => none

end World

/-- `enter` and `leave` are a function of the user that the reactor calls. What a cursor does is left
open: inside it functions of the user run, and it may raise. A query under `noreply` leaves nothing
here, and a reader error is a response that is not `ok`. -/
inductive Event where
  | enter | leave
  | runQuery
  | close (noreplyWait : Bool)
  | respond (token : ℤ) (ok : Bool)
  | respondCursor
  | cursorCalls | cursorReturns | cursorRaises
  | resume
  | connectionLost
  deriving Repr, DecidableEq

def step (w : World) : Event → Option World
  | .enter => if w.stack = [] then some { w with stack := [.user] } else none
  | .leave => match w.stack with
    | .user :: stack => some { w with stack }
    | _ => none
  | .runQuery => match w.stack with
    | .user :: _ => some w.runQuery
    | _ => none
  | .close noreplyWait => match w.stack with
    | .user :: _ => some (w.connClose noreplyWait)
    | _ => none
  | .respond token ok => if w.stack = [] ∧ w.isOpen then some (w.respond token ok) else none
  | .respondCursor => if w.stack = [] ∧ w.isOpen then some { w with stack := [.extend] } else none
  | .cursorCalls => match w.stack with
    | .extend :: _ | .cursors _ :: _ => some { w with stack := .user :: w.stack }
    | _ => none
  | .cursorReturns => match w.stack with
    | .extend :: stack => some { w with stack }
    | _ => none
  | .cursorRaises => match w.stack with
    | .extend :: stack => some { w with stack }.raised
    | .cursors _ :: stack => some { w with stack }
    | _ => none
  | .resume => w.resume
  | .connectionLost =>
    if w.stack = [] then some { w with isOpen := false, lost := true } else none

def machine : Machine World Event where
  init w := w = init
  step w e w' := step w e = some w'

/-- No Deferred is fired twice, and once the connection has ended none is pending. -/
structure Answered (w : World) : Prop where
  once : w.fired.Nodup
  all : w.lost = true ∨ w.closed = true → ∀ d < w.deferreds, d ∈ w.fired

end RethinkDB.Twisted.Instance
