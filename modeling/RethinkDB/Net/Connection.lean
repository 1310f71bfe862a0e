import RethinkDB.Net.Driver

/-! `Connection` of `rethinkdb/net.py` around its instances: closing one, opening the next, and
what may be called meanwhile. -/
namespace RethinkDB.Net
open RethinkDB.Lib Prog

variable {V : Type} {P : Peer V}

namespace Driver

/-- `run_query` as `ConnectionInstance.close` uses it. The `Connection` has let go of the instance
by then, so a cursor cannot ask for more. -/
def runDetached (query : Query V) : Call P Unit := do
  sendQuery query
  match ← readResponse query none with
  | none => throw .attribute
  | some res => match res.type with
    | .successAtom | .serverInfo => do
      let _ ← ofExcept (firstDatum res)
    | .successPartial | .successSequence => do
      let id ← read fun d => d.cursors.length
      modify (register query)
      modifyCursor id Cursor.request
      throw (.driver "Connection is closed.")
    | .waitComplete => return ()
    | _ => do
      let e ← ofExcept (res.makeError query)
      throw e

/-- The `finally` of `ConnectionInstance.close`. -/
def shut (d : Driver P) : Driver P := { d with io := d.io.close, headerInProgress := none }

/-- `ConnectionInstance.close`. -/
def closeInstance (noreplyWait : Bool) (token : ℤ) : Call P Unit := do
  modify fun d => { d with closing := true }
  forEach (cursorError "Connection is closed.") (← read cachedCursors)
  modify fun d => { d with cursorCache := ∅ }
  ensure shut do
    if noreplyWait then
      runDetached (← termless .noreplyWait token)

end Driver

/-- What `_instance` is: `None`, an instance that has no `_socket` yet, or one that has. -/
inductive Stage where
  | none | unconnected | connected
  deriving Repr, DecidableEq

/-- The latest instance is in `driver`. Cursors below `former` belong to instances the connection
has let go of. -/
structure Connection {V : Type} (P : Peer V) where
  driver : Driver P
  stage : Stage
  host : String
  port : ℕ
  former : ℕ

/-- What may go wrong in the `try` of `SocketWrapper.__init__`. -/
inductive ConnectFailure where
  | auth (text : String)
  | timeout
  | driver (text : String)
  | socketTimeout
  | other (text : String)
  deriving Repr, DecidableEq

namespace Connection

abbrev Action (P : Peer V) (α : Type) := Prog (Connection P) (Exn V) α

def onDriver {α : Type} (m : Call P α) : Action P α :=
  zoom Connection.driver (fun driver c => { c with driver }) m

def isOpen : Action P Bool := do
  match ← read stage with
  | .none => return false
  | .unconnected => throw .attribute
  | .connected => read fun c => c.driver.io.isOpen

def checkOpen : Action P Unit := do
  match ← read stage with
  | .none => throw (.driver "Connection is closed.")
  | .unconnected => throw .attribute
  | .connected => onDriver Driver.checkOpen

/-- `self._instance = None` and `self._next_token = 0`. -/
def letGo (c : Connection P) : Connection P :=
  { c with
    driver := { c.driver with nextToken := 0 }
    stage := .none
    former := c.driver.cursors.length }

/-- `Connection.close`. An instance without a socket has no cursors, and `finally` takes an
attribute of `None`. -/
def close (noreplyWait : Bool) : Action P Unit := do
  match ← read stage with
  | .none => return ()
  | .unconnected => do
    modify letGo
    throw .attribute
  | .connected => do
    let token ← onDriver Driver.newToken
    modify letGo
    onDriver (Driver.closeInstance noreplyWait token)

/-- The handlers of `SocketWrapper.__init__`. -/
def raised (c : Connection P) : ConnectFailure → Exn V
  | .auth text => .driver text
  | .timeout | .socketTimeout => .timeout c.host c.port
  | .driver text => .driver ((text.replace "receiving from" "during handshake with").replace
      "sending to" "during handshake with")
  | .other text => .driver s!"Could not connect to {c.host}:{c.port}. Error: {text}"

/-- `self._conn_type(self, **self._child_kwargs)`. -/
def renew (c : Connection P) : Connection P :=
  { c with
    driver := { c.driver with cursorCache := ∅, headerInProgress := none, closing := false }
    stage := .unconnected
    former := c.driver.cursors.length }

/-- `ConnectionInstance.connect`, whose `SocketWrapper` comes out of the attempt. -/
def connect : Except ConnectFailure (Transport P) → Action P Unit
  | .ok io => modify fun c => { c with driver := { c.driver with io }, stage := .connected }
  | .error failure => do
    let e ← read fun c => c.raised failure
    throw e

def reconnect (noreplyWait : Bool) (attempt : Except ConnectFailure (Transport P)) : Action P Unit := do
  close noreplyWait
  modify renew
  connect attempt

/-- `_maybe_fetch_batch` of a cursor whose instance is gone: `_continue` goes by the `Connection`. -/
def formerFetch (id : ℕ) : Action P Unit := do
  let c ← onDriver (Driver.cursor id)
  if c.WantsBatch then
    onDriver (Driver.modifyCursor id Cursor.request)
    checkOpen
    onDriver (Driver.cursorRequest .cont id)

/-- A turn of `_get_next` of such a cursor. To read it would go to the wrapper that closing its
instance has closed. -/
def formerTurn (id : ℕ) : Action P V := do
  let c ← onDriver (Driver.cursor id)
  match c.items with
  | v :: vs => do
    onDriver (Driver.modifyCursor id fun c => { c with items := vs })
    return v
  | [] => do
    formerFetch id
    match (← onDriver (Driver.cursor id)).error with
    | some e => throw e
    | none => throw .attribute

/-- `_get_next` of such a cursor. -/
def formerGetNext (id : ℕ) : Option ℤ → Action P V
  | none => formerTurn id
  | some _ => do
    let _ ← onDriver Driver.time
    formerTurn id

/-- `Cursor.next`. -/
def next (id : ℕ) (wait : Driver.Wait) : Action P V := do
  if id < (← read former) then formerGetNext id (← ofExcept (Driver.waitToTimeout wait))
  else onDriver (Driver.next id wait)

/-- `Cursor.close`; the instance of a former cursor is not open. -/
def cursorClose (id : ℕ) : Action P Unit := do
  if id < (← read former) then do
    let c ← onDriver (Driver.cursor id)
    if c.error = none then onDriver (Driver.modifyCursor id (Cursor.fail .cursorEmpty))
  else onDriver (Driver.cursorClose id)

/-- An operation of the program on its `Connection` and its cursors. -/
def perform : Op V → Action P (Reply V)
  | .next id wait => do
    let v ← next id wait
    return .value v
  | .close id => do
    cursorClose id
    return .none
  | op => do
    checkOpen
    onDriver op.call

end Connection
end RethinkDB.Net
