import RethinkDB.Lib.Prog
import RethinkDB.Net.Protocol

/-! `DatabaseProtocol` of the Twisted driver: frames put together again from what
`dataReceived` is given. -/
namespace RethinkDB.Twisted
open RethinkDB.Lib Net Prog

inductive ProtocolState where
  | waitingForHandshake | ready
  deriving Repr, DecidableEq

/-- `H` is what `response_handler` works on; `calls` are the calls it got so far, `losing`
whether the transport was told to lose the connection. -/
structure DatabaseProtocol (H : Type) where
  state : ProtocolState
  buf : Bytes
  bufExpectedLength : ℕ
  bufToken : Option ℤ
  isOpen : Bool
  losing : Bool
  factory : H
  calls : List (Option ℤ × Bytes)

abbrev ResponseHandler (H : Type) := Option ℤ → Bytes → Prog H String Unit

namespace DatabaseProtocol
variable {H : Type} (responseHandler : ResponseHandler H)

/-- `struct.unpack("<qL", header)`. -/
def unpack (header : Bytes) : Except String (ℤ × ℕ) :=
  match unpackHeader header with
  | some (token, length) => .ok (token, length)
  | none => .error "unpack requires a buffer of 12 bytes"

/-- The first half of a turn of `_handleResponse`: whether a header is in. -/
def readHeader : Prog (DatabaseProtocol H) String Bool := do
  let d ← read id
  if d.bufExpectedLength = 0 then
    if 12 ≤ d.buf.length then
      let (token, length) ← ofExcept (unpack (d.buf.take 12))
      modify fun d =>
        { d with bufToken := some token, bufExpectedLength := length, buf := d.buf.drop 12 }
      pure true
    else pure false
  else pure true

/-- The call of `response_handler`. -/
def respond (token : Option ℤ) (payload : Bytes) : Prog (DatabaseProtocol H) String Unit := do
  modify fun d => { d with calls := d.calls ++ [(token, payload)] }
  zoom factory (fun h d => { d with factory := h }) (responseHandler token payload)

/-- The second half: whether a payload was handed on. -/
def readPayload : Prog (DatabaseProtocol H) String Bool := do
  let d ← read id
  if d.buf.length < d.bufExpectedLength then pure false
  else
    respond responseHandler d.bufToken (d.buf.take d.bufExpectedLength)
    modify fun d =>
      { d with buf := d.buf.drop d.bufExpectedLength, bufToken := none, bufExpectedLength := 0 }
    pure true

def handleTurn : Prog (DatabaseProtocol H) String Bool := do
  if ← readHeader then readPayload responseHandler else pure false

/-- `_handleResponse`. Every turn that goes on takes bytes off `buf`. -/
def handleResponse (data : Bytes) : Prog (DatabaseProtocol H) String Unit := do
  modify fun d => { d with buf := d.buf ++ data }
  let d ← read id
  turns (handleTurn responseHandler) (d.buf.length + 1)

/-- `dataReceived`, with `_handleHandshake` for its other handler. What it raises is the text of a
`ReqlDriverError`. -/
def dataReceived (handleHandshake : Bytes → Prog (DatabaseProtocol H) String Unit) (data : Bytes) :
    Prog (DatabaseProtocol H) String Unit := do
  let d ← read id
  if d.isOpen then
    handle
      (match d.state with
        | .waitingForHandshake => handleHandshake data
        | .ready => handleResponse responseHandler data)
      fun exc => do
        modify fun d => { d with losing := true }
        throw s!"Driver failed to handle received data.Error: {exc}. Dropping the connection."

end DatabaseProtocol
end RethinkDB.Twisted
