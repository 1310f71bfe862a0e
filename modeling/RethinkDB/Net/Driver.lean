import Mathlib.Data.List.AList
import RethinkDB.Net.Socket

/-! The blocking driver: `Cursor`, `ConnectionInstance` and `Connection` of
`rethinkdb/net.py`, for one connection that has been opened and its one instance. Cursors
live on a heap and are named by their position in it. -/
namespace RethinkDB.Net
open RethinkDB.Lib

/-- Texts that depend on the numbers in the generated module `ql2_pb2`. -/
structure Numbering where
  /-- `[type]`, the body of a query without a term. -/
  queryJson : QueryType → Bytes
  queryJson_length : ∀ type, (queryJson type).length < 2 ^ 32
  /-- `{"t":SUCCESS_SEQUENCE,"r":[]}`, the dummy of `Cursor._error`. -/
  dummyResponse : Bytes

theorem nil_length_lt {T : Type} (type : T) : ((fun _ => [] : T → Bytes) type).length < 2 ^ 32 := by
  simp

structure Cursor (V : Type) where
  query : Query V
  items : List V
  outstandingRequests : ℤ
  threshold : ℕ
  error : Option (Exn V)
  jsonDecoder : Decoder V

/-- Whom `_read_response` gives a frame to. -/
inductive Recipient where
  | cursor (id : ℕ)
  | query
  | nobody
  deriving Repr, DecidableEq

/-- `handed` is the history of the frames taken off the wire, not a field of the source. -/
structure Driver {V : Type} (P : Peer V) where
  io : Transport P
  numbering : Numbering
  nextToken : ℤ
  jsonDecoder : Decoder V
  cursorCache : AList (fun _ : ℤ => ℕ)
  headerInProgress : Option Bytes
  closing : Bool
  cursors : List (Cursor V)
  handed : List (ℤ × Bytes × Recipient)

variable {V : Type} {P : Peer V}

def Driver.getJsonDecoder (d : Driver P) (query : Query V) : Decoder V :=
  query.jsonDecoder.getD d.jsonDecoder

/-- The guard of `_maybe_fetch_batch`. -/
def Cursor.WantsBatch (c : Cursor V) : Prop :=
  c.error = none ∧ c.items.length < c.threshold ∧ c.outstandingRequests = 0

namespace Cursor

def request (c : Cursor V) : Cursor V := { c with outstandingRequests := c.outstandingRequests + 1 }

def answered (c : Cursor V) : Cursor V := { c with outstandingRequests := c.outstandingRequests - 1 }

def fail (e : Exn V) (c : Cursor V) : Cursor V := { c with error := some e }

/-- `_extend_internal` without the cache: what the response leaves of the cursor. A
response after the first error changes the threshold only. -/
def store (res : Response V) (c : Cursor V) : Except (Exn V) (Cursor V) :=
  let c := { c with threshold := res.data.length }
  match c.error with
  | some _ => .ok c
  | none => match res.type with
    | .successPartial => .ok { c with items := c.items ++ res.data }
    | .successSequence => .ok { c with items := c.items ++ res.data, error := some .cursorEmpty }
    | _ => do
      let e ← res.makeError c.query
      return c.fail e

end Cursor

instance (c : Cursor V) : Decidable c.WantsBatch :=
  decidable_of_iff (c.error.isNone ∧ c.items.length < c.threshold ∧ c.outstandingRequests = 0)
    (by simp [Cursor.WantsBatch])

abbrev Call (P : Peer V) (α : Type) := Prog (Driver P) (Exn V) α

namespace Driver
open Prog

def socket {α : Type} (m : Prog (Transport P) (Exn V) α) : Call P α :=
  zoom Driver.io (fun io d => { d with io }) m

def time : Call P ℤ := socket fun t => (.ok t.now.1, t.now.2)

/-- A cursor of the heap; a program has no name for one that is not there. -/
def cursor (id : ℕ) : Call P (Cursor V) := fun d =>
  match d.cursors[id]? with
  | some c => (.ok c, d)
  | none => (.error .attribute, d)

theorem wp_cursor (id : ℕ) {Q : Outcome (Exn V) (Cursor V) → Driver P → Prop} {d : Driver P} :
    wp (cursor id) Q d ↔ (∀ c, d.cursors[id]? = some c → Q (.ok c) d) ∧
      (d.cursors[id]? = none → Q (.error .attribute) d) := by
  unfold wp cursor
  cases d.cursors[id]? <;> simp

def modifyCursor (id : ℕ) (f : Cursor V → Cursor V) : Call P Unit :=
  modify fun d => { d with cursors := d.cursors.modify id f }

def checkOpen : Call P Unit := do
  if ← read fun d => d.io.isOpen then return () else throw (.driver "Connection is closed.")

def newToken : Call P ℤ := do
  let res ← read Driver.nextToken
  modify fun d => { d with nextToken := d.nextToken + 1 }
  return res

/-- The first line of `run_query`, which is all of it under `noreply`. The server has a
query once its last byte is accepted. -/
def sendQuery (query : Query V) : Call P Unit := do
  let message ← ofExcept query.serialize
  socket (Transport.sendall message)
  modify fun d => { d with io := { d.io with peer := P.receive d.io.peer query } }

/-- `Query(type, token, None, None)`. -/
def termless (type : QueryType) (token : ℤ) : Call P (Query V) := do
  let body ← read fun d => d.numbering.queryJson type
  return { type, token, term := none, body := .ok body, jsonDecoder := none, noreply := false }

/-- `Connection._continue` and `Connection._stop`. -/
def cursorRequest (type : QueryType) (id : ℕ) : Call P Unit := do
  checkOpen
  let c ← cursor id
  sendQuery (← termless type c.query.token)

/-- `Cursor._maybe_fetch_batch`. -/
def maybeFetchBatch (id : ℕ) : Call P Unit := do
  let c ← cursor id
  if c.WantsBatch then
    modifyCursor id Cursor.request
    cursorRequest .cont id

/-- `del self.conn._cursor_cache[token]`. -/
def uncache (token : ℤ) : Call P Unit := fun d =>
  if token ∈ d.cursorCache then (.ok (), { d with cursorCache := d.cursorCache.erase token })
  else (.error .key, d)

theorem wp_uncache (token : ℤ) {Q : Outcome (Exn V) Unit → Driver P → Prop} {d : Driver P} :
    wp (uncache token) Q d ↔
      (token ∈ d.cursorCache → Q (.ok ()) { d with cursorCache := d.cursorCache.erase token }) ∧
      (token ∉ d.cursorCache → Q (.error .key) d) := by
  unfold wp uncache
  by_cases h : token ∈ d.cursorCache <;> simp [h]

/-- `_extend_internal` up to the cache. -/
def storeResponse (id : ℕ) (res : Response V) : Call P Unit := do
  let c ← cursor id
  match c.store res with
  | .ok c => modifyCursor id fun _ => c
  | .error e => do
    -- `make_error` raised: only the threshold has been assigned
    modifyCursor id fun c => { c with threshold := res.data.length }
    throw e

/-- `Cursor._extend_internal`. -/
def extendInternal (id : ℕ) (res : Response V) : Call P Unit := do
  storeResponse id res
  let c ← cursor id
  if c.outstandingRequests = 0 ∧ c.error ≠ none then uncache res.token

/-- `Cursor._extend`. -/
def extend (id : ℕ) (resBuf : Bytes) : Call P Unit := do
  modifyCursor id Cursor.answered
  maybeFetchBatch id
  let c ← cursor id
  let res ← ofExcept (Response.ofJson c.query.token resBuf c.jsonDecoder)
  extendInternal id res

/-- `Cursor._error`. -/
def cursorError (message : String) (id : ℕ) : Call P Unit := do
  let c ← cursor id
  if c.error = none then
    modifyCursor id (Cursor.fail (.runtime message c.query.term))
    extend id (← read fun d => d.numbering.dummyResponse)

/-- `list(self._cursor_cache.values())`: oldest first. -/
def cachedCursors (d : Driver P) : List ℕ := (d.cursorCache.entries.map Sigma.snd).reverse

/-- `ConnectionInstance.close()`, without `noreply_wait`. -/
def close : Call P Unit := do
  modify fun d => { d with closing := true }
  forEach (cursorError "Connection is closed.") (← read cachedCursors)
  modify fun d => { d with cursorCache := ∅, io := d.io.close, headerInProgress := none }

def hand (token : ℤ) (resBuf : Bytes) (recipient : Recipient) : Call P Unit :=
  modify fun d => { d with handed := d.handed ++ [(token, resBuf, recipient)] }

/-- `struct.unpack("<qL", self._header_in_progress)`. -/
def parseHeader (header : Bytes) : Except (Exn V) (ℤ × ℕ) :=
  match unpackHeader header with
  | some h => .ok h
  | none => .error .struct

@[simp] theorem parseHeader_pack (f : Frame) :
    (parseHeader (packHeader f.token f.payload.length) : Except (Exn V) _) =
      .ok (f.token, f.payload.length) := by
  simp [parseHeader]

/-- The header half of the `try` block of `_read_response`. -/
def readHeader (deadline : Option ℤ) : Call P (ℤ × ℕ) := do
  match ← read Driver.headerInProgress with
  | some header => ofExcept (parseHeader header)
  | none => do
    let header ← socket (Transport.recvall 12 deadline)
    modify fun d => { d with headerInProgress := some header }
    ofExcept (parseHeader header)

/-- The `try` block of `_read_response`; `recv` raises no `KeyboardInterrupt` here. -/
def readFrame (deadline : Option ℤ) : Call P (ℤ × Bytes) := do
  let (resToken, resLen) ← readHeader deadline
  let resBuf ← socket (Transport.recvall resLen deadline)
  modify fun d => { d with headerInProgress := none }
  return (resToken, resBuf)

/-- The loop of `_read_response`, for at most so many frames. -/
def readLoop (query : Query V) (deadline : Option ℤ) : ℕ → Call P (Option (Response V))
  | 0 => stay
  | n + 1 => do
    let (resToken, resBuf) ← readFrame deadline
    match ← read fun d => d.cursorCache.lookup resToken with
    | some id => do
      hand resToken resBuf (.cursor id)
      extend id resBuf
      if resToken = query.token then return none else readLoop query deadline n
    | none =>
      if resToken = query.token then do
        hand resToken resBuf .query
        let decoder ← read fun d => d.getJsonDecoder query
        let res ← ofExcept (Response.ofJson resToken resBuf decoder)
        return some res
      else do
        hand resToken resBuf .nobody
        if ← read Driver.closing then readLoop query deadline n
        else do
          close
          throw (.driver "Unexpected response received.")

/-- `ConnectionInstance._read_response`. A frame takes an event of the schedule unless
its header is already in, so the bound is never what ends the loop. -/
def readResponse (query : Query V) (deadline : Option ℤ) : Call P (Option (Response V)) := do
  readLoop query deadline (← read fun d => d.io.env.length + 2)

/-- The assignments of `DefaultCursor.__init__`. -/
def register (query : Query V) (d : Driver P) : Driver P :=
  { d with
    cursors := d.cursors ++ [⟨query, [], 0, 1, none, d.getJsonDecoder query⟩]
    cursorCache := d.cursorCache.insert query.token d.cursors.length }

/-- `DefaultCursor.__init__`. -/
def newCursor (query : Query V) (first : Response V) : Call P ℕ := do
  let id ← read fun d => d.cursors.length
  modify (register query)
  maybeFetchBatch id
  extendInternal id first
  return id

/-- `res.data[0]`. -/
def firstDatum (res : Response V) : Except (Exn V) V :=
  match res.data with
  | v :: _ => .ok v
  | [] => .error .index

theorem firstDatum_of (res : Response V) (h : res.data ≠ []) : ∃ v, firstDatum res = .ok v := by
  obtain ⟨v, vs, hcons⟩ := List.exists_cons_of_ne_nil h
  unfold firstDatum
  rw [hcons]
  exact ⟨v, rfl⟩

/-- The end of `run_query`: what the user gets for a response. -/
def replyTo (query : Query V) (res : Response V) : Call P (Reply V) :=
  match res.type with
  | .successAtom => do
    let v ← ofExcept (firstDatum res)
    return maybeProfile (.value v) res
  | .successPartial | .successSequence => do
    let id ← newCursor query res
    return maybeProfile (.cursor id) res
  | .waitComplete => pure .none
  | .serverInfo => do
    let v ← ofExcept (firstDatum res)
    return .value v
  | _ => do
    let e ← ofExcept (res.makeError query)
    throw e

/-- `ConnectionInstance.run_query`. -/
def runQuery (query : Query V) (noreply : Bool) : Call P (Reply V) := do
  sendQuery query
  if noreply then return .none
  else match ← readResponse query none with
    | some res => replyTo query res
    | none => throw .attribute

/-- `Connection._start`: the JSON text is what the encoder made of term and optargs. -/
def start (term : Option V) (body : Except String Bytes) (jsonDecoder : Option (Decoder V))
    (noreply : Bool) : Call P (Reply V) := do
  checkOpen
  let token ← newToken
  runQuery { type := .start, token, term, body, jsonDecoder, noreply } noreply

/-- `Connection.noreply_wait` and `Connection.server`. -/
def control (type : QueryType) : Call P (Reply V) := do
  checkOpen
  let token ← newToken
  runQuery (← termless type token) false

def noreplyWait : Call P (Reply V) := control .noreplyWait

def server : Call P (Reply V) := control .serverInfo

inductive Wait where
  | bool (b : Bool)
  | real (t : ℤ)
  | other (text : String)
  deriving Repr, DecidableEq

/-- `Cursor._wait_to_timeout`. -/
def waitToTimeout : Wait → Except (Exn V) (Option ℤ)
  | .bool b => .ok (if b then none else some 0)
  | .real t => if 0 ≤ t then .ok (some t) else .error (.driver s!"Invalid wait timeout '{t}'")
  | .other text => .error (.driver s!"Invalid wait timeout '{text}'")

/-- The loop of `DefaultCursor._get_next`, for at most so many turns. -/
def nextLoop (id : ℕ) (deadline : Option ℤ) : ℕ → Call P V
  | 0 => stay
  | n + 1 => do
    let c ← cursor id
    match c.items with
    | v :: vs => do
      modifyCursor id fun c => { c with items := vs }
      return v
    | [] => do
      maybeFetchBatch id
      match (← cursor id).error with
      | some e => throw e
      | none => do
        let _ ← readResponse c.query deadline
        nextLoop id deadline n

/-- `DefaultCursor._get_next`. -/
def getNext (id : ℕ) : Option ℤ → Call P V
  | none => do nextLoop id none (← read fun d => d.io.env.length + 3)
  | some timeout => do
    let now ← time
    nextLoop id (some (now + timeout)) (← read fun d => d.io.env.length + 3)

/-- `Cursor.next`. -/
def next (id : ℕ) (wait : Wait) : Call P V := do
  getNext id (← ofExcept (waitToTimeout wait))

/-- `Cursor.close`. -/
def cursorClose (id : ℕ) : Call P Unit := do
  let c ← cursor id
  if c.error = none then
    modifyCursor id (Cursor.fail .cursorEmpty)
    if ← read fun d => d.io.isOpen then
      modifyCursor id Cursor.request
      cursorRequest .stop id

end Driver

/-- What a program does with an open connection and the cursors it got from it. -/
inductive Op (V : Type) where
  | run (term : Option V) (body : Except String Bytes) (jsonDecoder : Option (Decoder V))
      (noreply : Bool)
  | next (id : ℕ) (wait : Driver.Wait)
  | close (id : ℕ)
  | noreplyWait
  | server

def Op.call : Op V → Call P (Reply V)
  | .run term body jsonDecoder noreply => Driver.start term body jsonDecoder noreply
  | .next id wait => do
    let v ← Driver.next id wait
    return .value v
  | .close id => do
    Driver.cursorClose id
    return .none
  | .noreplyWait => Driver.noreplyWait
  | .server => Driver.server

end RethinkDB.Net
