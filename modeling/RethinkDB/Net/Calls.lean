import RethinkDB.Lib.Script
import RethinkDB.Net.Driver

/-! The blocking driver once more, with every call of its `SocketWrapper` in sight: each program
of `Driver` is the run of a script. -/
namespace RethinkDB.Net
open RethinkDB.Lib

variable {V : Type} {P : Peer V}

/-- What the driver does with its `SocketWrapper`. `receive` is no call of the source: the last byte
of a query has been accepted. -/
inductive SocketCall (V : Type) : Type → Type where
  | recvall (length : ℕ) (deadline : Option ℤ) : SocketCall V Bytes
  | sendall (data : Bytes) : SocketCall V Unit
  | receive (query : Query V) : SocketCall V Unit
  | close : SocketCall V Unit
  | time : SocketCall V ℤ

def SocketCall.perform {α : Type} : SocketCall V α → Prog (Transport P) (Exn V) α
  | recvall length deadline => Transport.recvall length deadline
  | sendall data => Transport.sendall data
  | receive query => Prog.modify fun t => { t with peer := P.receive t.peer query }
  | close => Prog.modify Transport.close
  | time => fun t => (.ok t.now.1, t.now.2)

def wrapper (P : Peer V) : Part (SocketCall V) (Driver P) (Transport P) (Exn V) where
  get := Driver.io
  set io d := { d with io }
  get_set _ _ := rfl
  perform := SocketCall.perform

/-- A call of a `SocketWrapper` in some state. -/
abbrev Wrapped (P : Peer V) : Type 1 := Entry (SocketCall V) (Transport P)

abbrev Scripted (P : Peer V) (α : Type) : Type 1 := Script (SocketCall V) (Driver P) (Exn V) α

namespace Driver
open Prog

def Own {α : Type} (m : Call P α) : Prop := ∀ d, (m d).2.io = d.io

@[simp] theorem Own.run {α : Type} {m : Call P α} (h : Own m) : (Script.own m).run (wrapper P) = m := by
  apply Script.run_own
  intro d
  change { (m d).2 with io := d.io } = (m d).2
  rw [← h d]

@[simp] theorem own_pure {α : Type} (a : α) : Own (pure a : Call P α) := fun _ => rfl

@[simp] theorem own_throw {α : Type} (e : Exn V) : Own (throw e : Call P α) := fun _ => rfl

@[simp] theorem own_read {α : Type} (f : Driver P → α) : Own (read f : Call P α) := fun _ => rfl

@[simp] theorem own_ofExcept {α : Type} (x : Except (Exn V) α) : Own (ofExcept x : Call P α) := by
  cases x <;> exact fun _ => rfl

theorem Own.bind {α β : Type} {m : Call P α} {f : α → Call P β} (hm : Own m) (hf : ∀ a, Own (f a)) :
    Own (m >>= f) := by
  intro d
  change (after f (m d)).2.io = d.io
  have hd := hm d
  rcases hrun : m d with ⟨a | e | _, d'⟩
  all_goals rw [hrun] at hd
  · exact (hf a d').trans hd
  · exact hd
  · exact hd

theorem Own.ite {α : Type} {c : Prop} [Decidable c] {m m' : Call P α} (hm : Own m) (hm' : Own m') :
    Own (if c then m else m') := by
  split <;> assumption

@[simp] theorem own_cursor (id : ℕ) : Own (cursor id : Call P (Cursor V)) := by
  intro d
  unfold cursor
  cases d.cursors[id]? <;> rfl

@[simp] theorem own_modifyCursor (id : ℕ) (f : Cursor V → Cursor V) : Own (modifyCursor id f : Call P Unit) :=
  fun _ => rfl

@[simp] theorem own_checkOpen : Own (checkOpen : Call P Unit) :=
  (own_read _).bind fun _ => (own_pure ()).ite (own_throw _)

@[simp] theorem own_newToken : Own (newToken : Call P ℤ) := fun _ => rfl

@[simp] theorem own_termless (type : QueryType) (token : ℤ) : Own (termless type token : Call P (Query V)) :=
  fun _ => rfl

@[simp] theorem own_uncache (token : ℤ) : Own (uncache token : Call P Unit) := by
  intro d
  unfold uncache
  split <;> rfl

@[simp] theorem own_storeResponse (id : ℕ) (res : Response V) : Own (storeResponse id res : Call P Unit) := by
  apply (own_cursor id).bind
  intro c
  cases c.store res with
  | ok c' => exact own_modifyCursor id _
  | error e => exact (own_modifyCursor id _).bind fun _ => own_throw e

@[simp] theorem own_extendInternal (id : ℕ) (res : Response V) : Own (extendInternal id res : Call P Unit) := by
  apply (own_storeResponse id res).bind
  intro _
  apply (own_cursor id).bind
  intro c
  exact (own_uncache _).ite (own_pure ())

@[simp] theorem own_register (query : Query V) : Own (modify (register query) : Call P Unit) :=
  fun _ => rfl

@[simp] theorem own_hand (token : ℤ) (resBuf : Bytes) (recipient : Recipient) :
    Own (hand token resBuf recipient : Call P Unit) := fun _ => rfl

end Driver

/-! ### The scripts -/

namespace Script
open Prog

/-- `for x in xs: f(x)`. -/
def forEach {β : Type} (f : β → Scripted P Unit) : List β → Scripted P Unit
  | [] => pure ()
  | b :: bs => do
    f b
    forEach f bs

def sendQuery (query : Query V) : Scripted P Unit := do
  let message ← .own (ofExcept query.serialize)
  .call (.sendall message)
  .call (.receive query)

def cursorRequest (type : QueryType) (id : ℕ) : Scripted P Unit := do
  .own Driver.checkOpen
  let c ← .own (Driver.cursor id)
  let query ← .own (Driver.termless type c.query.token)
  sendQuery query

def maybeFetchBatch (id : ℕ) : Scripted P Unit := do
  let c ← .own (Driver.cursor id)
  if c.WantsBatch then
    .own (Driver.modifyCursor id Cursor.request)
    cursorRequest .cont id

def extend (id : ℕ) (resBuf : Bytes) : Scripted P Unit := do
  .own (Driver.modifyCursor id Cursor.answered)
  maybeFetchBatch id
  let c ← .own (Driver.cursor id)
  let res ← .own (ofExcept (Response.ofJson c.query.token resBuf c.jsonDecoder))
  .own (Driver.extendInternal id res)

def cursorError (message : String) (id : ℕ) : Scripted P Unit := do
  let c ← .own (Driver.cursor id)
  if c.error = none then
    .own (Driver.modifyCursor id (Cursor.fail (.runtime message c.query.term)))
    let dummy ← .own (read fun d => d.numbering.dummyResponse)
    extend id dummy

def close : Scripted P Unit := do
  .own (modify fun d => { d with closing := true })
  let cached ← .own (read Driver.cachedCursors)
  forEach (cursorError "Connection is closed.") cached
  .call .close
  .own (modify fun d => { d with cursorCache := ∅, headerInProgress := none })

def readHeader (deadline : Option ℤ) : Scripted P (ℤ × ℕ) := do
  match ← .own (read Driver.headerInProgress) with
  | some header => .own (ofExcept (Driver.parseHeader header))
  | none => do
    let header ← .call (.recvall 12 deadline)
    .own (modify fun d => { d with headerInProgress := some header })
    .own (ofExcept (Driver.parseHeader header))

def readFrame (deadline : Option ℤ) : Scripted P (ℤ × Bytes) := do
  let (resToken, resLen) ← readHeader deadline
  let resBuf ← .call (.recvall resLen deadline)
  .own (modify fun d => { d with headerInProgress := none })
  return (resToken, resBuf)

def readLoop (query : Query V) (deadline : Option ℤ) : ℕ → Scripted P (Option (Response V))
  | 0 => .own stay
  | n + 1 => do
    let (resToken, resBuf) ← readFrame deadline
    match ← .own (read fun d => d.cursorCache.lookup resToken) with
    | some id => do
      .own (Driver.hand resToken resBuf (.cursor id))
      extend id resBuf
      if resToken = query.token then return none else readLoop query deadline n
    | none =>
      if resToken = query.token then do
        .own (Driver.hand resToken resBuf .query)
        let decoder ← .own (read fun d => d.getJsonDecoder query)
        let res ← .own (ofExcept (Response.ofJson resToken resBuf decoder))
        return some res
      else do
        .own (Driver.hand resToken resBuf .nobody)
        if ← .own (read Driver.closing) then readLoop query deadline n
        else do
          close
          .own (throw (.driver "Unexpected response received."))

def readResponse (query : Query V) (deadline : Option ℤ) : Scripted P (Option (Response V)) := do
  let bound ← .own (read fun d => d.io.env.length + 2)
  readLoop query deadline bound

def newCursor (query : Query V) (first : Response V) : Scripted P ℕ := do
  let id ← .own (read fun d => d.cursors.length)
  .own (modify (Driver.register query))
  maybeFetchBatch id
  .own (Driver.extendInternal id first)
  return id

def replyTo (query : Query V) (res : Response V) : Scripted P (Reply V) :=
  match res.type with
  | .successAtom => do
    let v ← .own (ofExcept (Driver.firstDatum res))
    return maybeProfile (.value v) res
  | .successPartial | .successSequence => do
    let id ← newCursor query res
    return maybeProfile (.cursor id) res
  | .waitComplete => pure .none
  | .serverInfo => do
    let v ← .own (ofExcept (Driver.firstDatum res))
    return .value v
  | _ => do
    let e ← .own (ofExcept (res.makeError query))
    .own (throw e)

def runQuery (query : Query V) (noreply : Bool) : Scripted P (Reply V) := do
  sendQuery query
  if noreply then return .none
  else match ← readResponse query none with
    | some res => replyTo query res
    | none => .own (throw .attribute)

def start (term : Option V) (body : Except String Bytes) (jsonDecoder : Option (Decoder V))
    (noreply : Bool) : Scripted P (Reply V) := do
  .own Driver.checkOpen
  let token ← .own Driver.newToken
  runQuery { type := .start, token, term, body, jsonDecoder, noreply } noreply

def control (type : QueryType) : Scripted P (Reply V) := do
  .own Driver.checkOpen
  let token ← .own Driver.newToken
  let query ← .own (Driver.termless type token)
  runQuery query false

def nextLoop (id : ℕ) (deadline : Option ℤ) : ℕ → Scripted P V
  | 0 => .own stay
  | n + 1 => do
    let c ← .own (Driver.cursor id)
    match c.items with
    | v :: vs => do
      .own (Driver.modifyCursor id fun c => { c with items := vs })
      return v
    | [] => do
      maybeFetchBatch id
      let c' ← .own (Driver.cursor id)
      match c'.error with
      | some e => .own (throw e)
      | none => do
        let _ ← readResponse c.query deadline
        nextLoop id deadline n

def getNext (id : ℕ) : Option ℤ → Scripted P V
  | none => do
    let bound ← .own (read fun d => d.io.env.length + 3)
    nextLoop id none bound
  | some timeout => do
    let now ← .call .time
    let bound ← .own (read fun d => d.io.env.length + 3)
    nextLoop id (some (now + timeout)) bound

def next (id : ℕ) (wait : Driver.Wait) : Scripted P V := do
  let timeout ← .own (ofExcept (Driver.waitToTimeout wait))
  getNext id timeout

def cursorClose (id : ℕ) : Scripted P Unit := do
  let c ← .own (Driver.cursor id)
  if c.error = none then
    .own (Driver.modifyCursor id (Cursor.fail .cursorEmpty))
    if ← .own (read fun d => d.io.isOpen) then
      .own (Driver.modifyCursor id Cursor.request)
      cursorRequest .stop id

/-! ### A script runs as its program -/

@[simp] theorem pure_run {α : Type} (a : α) : (pure a : Scripted P α).run (wrapper P) = pure a :=
  (Driver.own_pure a).run

@[simp] theorem ite_run {α : Type} (c : Prop) [Decidable c] (m m' : Scripted P α) :
    (if c then m else m').run (wrapper P) = if c then m.run (wrapper P) else m'.run (wrapper P) :=
  apply_ite _ c m m'

@[simp] theorem sendQuery_run (query : Query V) :
    (sendQuery query : Scripted P Unit).run (wrapper P) = Driver.sendQuery query := by
  simp [sendQuery, Driver.sendQuery]
  rfl

@[simp] theorem cursorRequest_run (type : QueryType) (id : ℕ) :
    (cursorRequest type id : Scripted P Unit).run (wrapper P) = Driver.cursorRequest type id := by
  simp [cursorRequest, Driver.cursorRequest]

@[simp] theorem maybeFetchBatch_run (id : ℕ) :
    (maybeFetchBatch id : Scripted P Unit).run (wrapper P) = Driver.maybeFetchBatch id := by
  simp [maybeFetchBatch, Driver.maybeFetchBatch]

@[simp] theorem extend_run (id : ℕ) (resBuf : Bytes) :
    (extend id resBuf : Scripted P Unit).run (wrapper P) = Driver.extend id resBuf := by
  simp [extend, Driver.extend]

@[simp] theorem cursorError_run (message : String) (id : ℕ) :
    (cursorError message id : Scripted P Unit).run (wrapper P) = Driver.cursorError message id := by
  simp [cursorError, Driver.cursorError]

@[simp] theorem forEach_run {β : Type} (f : β → Scripted P Unit) (bs : List β) :
    (forEach f bs).run (wrapper P) = Prog.forEach (fun b => (f b).run (wrapper P)) bs := by
  induction bs with
  | nil => simp [forEach, Prog.forEach]
  | cons b bs ih => simp [forEach, Prog.forEach, ih]

@[simp] theorem close_run : (close : Scripted P Unit).run (wrapper P) = Driver.close := by
  simp [close, Driver.close]
  rfl

@[simp] theorem readHeader_run (deadline : Option ℤ) :
    (readHeader deadline : Scripted P (ℤ × ℕ)).run (wrapper P) = Driver.readHeader deadline := by
  simp only [readHeader, Driver.readHeader, Lib.Script.run_bind, Driver.Own.run, Driver.own_read]
  congr 1
  funext header
  cases header with
  | some header => simp
  | none =>
    simp
    rfl

@[simp] theorem readFrame_run (deadline : Option ℤ) :
    (readFrame deadline : Scripted P (ℤ × Bytes)).run (wrapper P) = Driver.readFrame deadline := by
  simp [readFrame, Driver.readFrame]
  rfl

/-- The induction is on the bound. -/
@[simp] theorem readLoop_run (query : Query V) (deadline : Option ℤ) (n : ℕ) :
    (readLoop query deadline n : Scripted P (Option (Response V))).run (wrapper P) =
      Driver.readLoop query deadline n := by
  induction n with
  | zero => exact Driver.Own.run fun _ => rfl
  | succ n ih =>
    simp only [readLoop, Driver.readLoop, Lib.Script.run_bind, readFrame_run, Driver.Own.run, Driver.own_read]
    congr 1
    funext frame
    congr 1
    funext cached
    cases cached with
    | some id => simp [ih]
    | none => simp [ih]

@[simp] theorem readResponse_run (query : Query V) (deadline : Option ℤ) :
    (readResponse query deadline : Scripted P (Option (Response V))).run (wrapper P) =
      Driver.readResponse query deadline := by
  simp [readResponse, Driver.readResponse]

@[simp] theorem newCursor_run (query : Query V) (first : Response V) :
    (newCursor query first : Scripted P ℕ).run (wrapper P) = Driver.newCursor query first := by
  simp [newCursor, Driver.newCursor]

@[simp] theorem replyTo_run (query : Query V) (res : Response V) :
    (replyTo query res : Scripted P (Reply V)).run (wrapper P) = Driver.replyTo query res := by
  unfold replyTo Driver.replyTo
  cases res.type <;> simp

@[simp] theorem runQuery_run (query : Query V) (noreply : Bool) :
    (runQuery query noreply : Scripted P (Reply V)).run (wrapper P) =
      Driver.runQuery query noreply := by
  simp only [runQuery, Driver.runQuery, Lib.Script.run_bind, sendQuery_run]
  congr 1
  funext _
  cases noreply with
  | true => simp
  | false =>
    simp only [Bool.false_eq_true, if_false, Lib.Script.run_bind, readResponse_run]
    congr 1
    funext res
    cases res <;> simp

@[simp] theorem start_run (term : Option V) (body : Except String Bytes)
    (jsonDecoder : Option (Decoder V)) (noreply : Bool) :
    (start term body jsonDecoder noreply : Scripted P (Reply V)).run (wrapper P) =
      Driver.start term body jsonDecoder noreply := by
  simp [start, Driver.start]

@[simp] theorem control_run (type : QueryType) :
    (control type : Scripted P (Reply V)).run (wrapper P) = Driver.control type := by
  simp [control, Driver.control]

/-- The induction is on the bound. -/
@[simp] theorem nextLoop_run (id : ℕ) (deadline : Option ℤ) (n : ℕ) :
    (nextLoop id deadline n : Scripted P V).run (wrapper P) = Driver.nextLoop id deadline n := by
  induction n with
  | zero => exact Driver.Own.run fun _ => rfl
  | succ n ih =>
    simp only [nextLoop, Driver.nextLoop, Lib.Script.run_bind, Driver.Own.run, Driver.own_cursor]
    congr 1
    funext c
    cases c.items with
    | cons v vs => simp
    | nil =>
      simp only [Lib.Script.run_bind, maybeFetchBatch_run, Driver.Own.run, Driver.own_cursor]
      congr 1
      funext _
      congr 1
      funext c'
      cases c'.error <;> simp [ih]

@[simp] theorem getNext_run (id : ℕ) (timeout : Option ℤ) :
    (getNext id timeout : Scripted P V).run (wrapper P) = Driver.getNext id timeout := by
  cases timeout with
  | none => simp [getNext, Driver.getNext]
  | some timeout =>
    simp [getNext, Driver.getNext]
    rfl

@[simp] theorem next_run (id : ℕ) (wait : Driver.Wait) :
    (next id wait : Scripted P V).run (wrapper P) = Driver.next id wait := by
  simp [next, Driver.next]

@[simp] theorem cursorClose_run (id : ℕ) :
    (cursorClose id : Scripted P Unit).run (wrapper P) = Driver.cursorClose id := by
  simp [cursorClose, Driver.cursorClose]

end Script

def Op.script : Op V → Scripted P (Reply V)
  | .run term body jsonDecoder noreply => Script.start term body jsonDecoder noreply
  | .next id wait => do
    let v ← Script.next id wait
    return .value v
  | .close id => do
    Script.cursorClose id
    return .none
  | .noreplyWait => Script.control .noreplyWait
  | .server => Script.control .serverInfo

/-- A script of an operation is the operation. -/
theorem Op.script_run (op : Op V) : (op.script : Scripted P (Reply V)).run (wrapper P) = op.call := by
  cases op <;> simp [script, call, Driver.noreplyWait, Driver.server]

end RethinkDB.Net
