import RethinkDB.Lib.Prog
import RethinkDB.Net.Protocol

/-! `SocketWrapper` over a socket whose every answer is chosen by a schedule. The server is
a state machine of its own; what it sends waits in `incoming` until `recv` takes it. -/
namespace RethinkDB.Net
open RethinkDB.Lib

/-- The other end of the connection: it is told of whole queries and may send bytes. -/
structure Peer (V : Type) where
  State : Type
  Act : Type
  receive : State → Query V → State
  act : State → Act → State × Bytes

/-- How one `recv` ends. `chunk k` delivers up to `k + 1` of the bytes asked for. `timedOut` is
`ETIMEDOUT` from Python 3.10 on, where it is a `socket.timeout`; before, it is an `osError`. The
last four are `ECONNRESET`, another `OSError`, another exception, and end of stream. -/
inductive RecvOutcome where
  | chunk (k : ℕ)
  | timeout | wouldBlock | eintr
  | timedOut
  | connReset
  | osError (text : String)
  | exception (text : String)
  | eof
  deriving Repr, DecidableEq

/-- How one `send` ends: `accept k` takes up to `k + 1` bytes. An `interrupt` comes from outside,
and what the call accepted before it is not counted. -/
inductive SendOutcome where
  | accept (k : ℕ)
  | eintr | connReset
  | osError (text : String)
  | exception (text : String)
  | interrupt (accepted : ℕ) (text : String)
  deriving Repr, DecidableEq

/-- One entry of the schedule a read runs under. -/
inductive Event (A : Type) where
  | peer (a : A)
  | recv (o : RecvOutcome)
  deriving Repr, DecidableEq

/-- A `SocketWrapper` with its socket: `isOpen` is `_socket is not None`, `timeout` the
last `settimeout`, `env`, `sends` and `clock` what the outside still has in store. When
`sends` is used up every further `send` accepts all it is given. -/
structure Transport {V : Type} (P : Peer V) where
  host : String
  port : ℕ
  isOpen : Bool
  readBuffer : Option Bytes
  timeout : Option ℤ
  incoming : Bytes
  peer : P.State
  env : List (Event P.Act)
  sends : List SendOutcome
  sent : Bytes
  clock : ℕ → ℤ
  ticks : ℕ

variable {V : Type} {P : Peer V}

/-- What `recv` does to its caller. -/
inductive Received where
  | data (chunk : Bytes)
  | timeout | wouldBlock | eintr | connReset
  | osError (text : String)
  | exception (text : String)
  deriving Repr, DecidableEq

namespace Transport

def peerAct (t : Transport P) (a : P.Act) : Transport P :=
  { t with peer := (P.act t.peer a).1, incoming := t.incoming ++ (P.act t.peer a).2 }

/-- What the scheduled outcome is for this `recv(n)`: a socket times out only under a
positive timeout, would block only under a zero one, and has data only when some is
there. Anything else leaves the call waiting. `ETIMEDOUT` is the connection's, under any timeout. -/
def recv (t : Transport P) (n : ℕ) : RecvOutcome → Option Received
  | .chunk k => if t.incoming = [] then none else some (.data (t.incoming.take (min (k + 1) n)))
  | .timeout => match t.timeout with
    | some s => if 0 < s then some .timeout else none
    | none => none
  | .wouldBlock => if t.timeout = some 0 then some .wouldBlock else none
  | .timedOut => some .timeout
  | .eintr => some .eintr
  | .connReset => some .connReset
  | .osError text => some (.osError text)
  | .exception text => some (.exception text)
  | .eof => some (.data [])

def settimeout (t : Transport P) (timeout : Option ℤ) : Transport P := { t with timeout }

/-- `SocketWrapper.close`; what `shutdown` and `close` of the socket raise is only logged. -/
def close (t : Transport P) : Transport P := { t with isOpen := false }

def now (t : Transport P) : ℤ × Transport P :=
  (t.clock t.ticks, { t with ticks := t.ticks + 1 })

/-- The loops of `SocketWrapper.recvall`, with `res` received so far. -/
def recvLoop (length : ℕ) :
    List (Event P.Act) → Bytes → Transport P → Outcome (Exn V) Bytes × Transport P
  | [], res, t =>
    if length ≤ res.length then (.ok res, { t with env := [] })
    else (.running, { t with env := [] })
  | e :: env, res, t =>
    if length ≤ res.length then (.ok res, { t with env := e :: env })
    else match e with
      | .peer a => recvLoop length env res (t.peerAct a)
      | .recv o => match t.recv (length - res.length) o with
        | none => recvLoop length env res t
        | some (.data chunk) =>
          let t := { t with incoming := t.incoming.drop chunk.length }.settimeout none
          if chunk = [] then (.error (.driver "Connection is closed."), { t.close with env })
          else recvLoop length env (res ++ chunk) t
        | some .timeout =>
          (.error (.timeout t.host t.port),
            { { t with readBuffer := some res }.settimeout none with env })
        | some .connReset => (.error (.driver "Connection is closed."), { t.close with env })
        -- this branch keeps neither `res` nor the blocking mode
        | some .wouldBlock => (.error (.timeout t.host t.port), { t with env })
        | some .eintr => recvLoop length env res t
        | some (.osError text) =>
          (.error (.driver s!"Connection interrupted receiving from {t.host}:{t.port} - {text}"),
            { t with env })
        | some (.exception text) =>
          (.error (.driver s!"Error receiving from {t.host}:{t.port} - {text}"),
            { t.close with env })

/-- The `timeout` of `recvall`: what is left until the deadline. -/
def remaining (t : Transport P) : Option ℤ → Option ℤ × Transport P
  | none => (none, t)
  | some deadline => (some (max 0 (deadline - t.now.1)), t.now.2)

/-- `SocketWrapper.recvall`; on a closed wrapper `settimeout` is an attribute of `None`. -/
def recvall (length : ℕ) (deadline : Option ℤ) : Prog (Transport P) (Exn V) Bytes := fun t =>
  let (timeout, t') := t.remaining deadline
  if t.isOpen then recvLoop length t.env (t.readBuffer.getD []) (t'.settimeout timeout)
  else (.error .attribute, t')

/-- The loop of `SocketWrapper.sendall` over the bytes not accepted yet. -/
def sendLoop : List SendOutcome → Bytes → Transport P → Outcome (Exn V) Unit × Transport P
  | [], data, t => (.ok (), { t with sends := [], sent := t.sent ++ data })
  | o :: sends, data, t =>
    if data = [] then (.ok (), { t with sends := o :: sends })
    else match o with
      | .accept k =>
        sendLoop sends (data.drop (k + 1)) { t with sent := t.sent ++ data.take (k + 1) }
      | .eintr => sendLoop sends data t
      | .connReset => (.error (.driver "Connection is closed."), { t.close with sends })
      | .osError text =>
        (.error (.driver s!"Connection interrupted sending to {t.host}:{t.port} - {text}"),
          { t.close with sends })
      | .exception text =>
        (.error (.driver s!"Error sending to {t.host}:{t.port} - {text}"), { t.close with sends })
      | .interrupt accepted text =>
        (.error (.foreign text), { t.close with sends, sent := t.sent ++ data.take accepted })

def sendall (data : Bytes) : Prog (Transport P) (Exn V) Unit := fun t =>
  if data = [] then (.ok (), t)
  else if t.isOpen then sendLoop t.sends data t
  else
    (.error (.driver s!"Error sending to {t.host}:{t.port} - 'NoneType' object has no attribute 'send'"), t)

end Transport

end RethinkDB.Net
