import RethinkDB.Lib.Machine
import RethinkDB.Net.Server

/-! `TwistedCursor` under the reactor: calls of `fetch_next` and `next`, their timers, and the
responses to the cursor's requests. Firing a Deferred runs the user's callbacks on the spot. -/
namespace RethinkDB.Twisted.Cursor
open RethinkDB.Lib Net

/-- What the Deferred of a `fetch_next` is fired with. -/
inductive Fetched where
  | result (more : Bool)
  | timeout
  deriving Repr, DecidableEq

/-- A call of `fetch_next`: the Deferred its loop waits on, and what its own was fired with.
`expired`, whether its timer has run while it was waiting, is history. -/
structure Fetch where
  wait : Option ℕ
  timed : Bool
  fired : List Fetched
  expired : Bool
  deriving Repr, DecidableEq

/-- A Deferred that the loop of a `fetch_next` waits on. -/
structure Waiter where
  fetch : ℕ
  called : Bool
  deriving Repr, DecidableEq

/-- The cursor's list `waiting`, with the calls of `fetch_next` and their Deferreds so far. -/
structure Waits where
  fetches : List Fetch
  waiters : List Waiter
  waiting : List ℕ
  deriving Repr, DecidableEq

/-- What the Deferred of a `next` is fired with. -/
inductive Got (V : Type) where
  | item (v : V)
  | error (e : Exn V)
  | timeout

structure Get (V : Type) where
  timed : Bool
  fired : List (Got V)

/-- `CursorItems`, a `DeferredQueue`: `waiting` are the Deferreds of `get` that wait for an item, out of
all there are. `delivered` is the history of the items given away. -/
structure CursorItems (V : Type) where
  pending : List V
  waiting : List ℕ
  gets : List (Get V)
  delivered : List V

/-- Where the reactor is inside `_extend`: `put` in `items.extend`, with whether the response is the
last one, `cancel` in `cancel_getters` and `wake` in the loop over `waiting`. `cancelled` and `woken`
are these after a Deferred has been fired. -/
inductive Phase (V : Type) where
  | idle
  | put (data : List V) (last : Bool)
  | stored
  | cancel (err : Exn V) (getters : List ℕ)
  | cancelled (getter : ℕ) (err : Exn V) (getters : List ℕ)
  | wake (waiters : List ℕ)
  | woken (waiter : ℕ) (waiters : List ℕ)

/-- `users` counts the user's functions on the stack. `closing` is set when `_handleResponse` sets out
to close the connection over what `_extend` raised, and there the run ends: `close` raises the same at
the Deferred that has fired, before it comes to the queries, and `dataReceived` drops the connection.
`received`, the items that have arrived, and `owed`, the list `waiting` at the last response, are
history. -/
structure World (V : Type) where
  query : Query V
  items : CursorItems V
  outstandingRequests : ℤ
  threshold : ℕ
  error : Option (Exn V)
  waits : Waits
  cached : Bool
  closing : Bool
  users : ℕ
  phase : Phase V
  received : List V
  owed : List ℕ

variable {V : Type}

namespace Waits

def fire (f : ℕ) (r : Fetched) (s : Waits) : Waits :=
  { s with fetches := s.fetches.modify f fun c => { c with fired := c.fired ++ [r] } }

/-- The end of a turn of `fetch_next`, up to `yield wait`. -/
def await (f : ℕ) (s : Waits) : Waits where
  fetches := s.fetches.modify f fun c => { c with wait := some s.waiters.length }
  waiters := s.waiters ++ [⟨f, false⟩]
  waiting := s.waiting ++ [s.waiters.length]

/-- A Deferred counts as called before its callbacks run. -/
def call (d : ℕ) (s : Waits) : Waits :=
  { s with waiters := s.waiters.modify d fun waiter => { waiter with called := true } }

def expire (f : ℕ) (s : Waits) : Waits :=
  { s with fetches := s.fetches.modify f fun c => { c with expired := true } }

/-- `wait.cancel()`, run by a timer of the `fetch_next`. -/
def cancel (f : ℕ) (s : Waits) : Option Waits := do
  let c ← s.fetches[f]?
  let d ← c.wait
  let waiter ← s.waiters[d]?
  if waiter.called then none else some (((s.call d).expire f).fire f .timeout)

end Waits

namespace CursorItems

def fire (g : ℕ) (r : Got V) (q : CursorItems V) : CursorItems V :=
  { q with gets := q.gets.modify g fun get => { get with fired := get.fired ++ [r] } }

def called (g : ℕ) (q : CursorItems V) : Bool := q.gets[g]?.all fun get => !get.fired.isEmpty

def get (timed : Bool) (q : CursorItems V) : CursorItems V :=
  match q.pending with
  | v :: vs =>
    { q with
      pending := vs, gets := q.gets ++ [⟨timed, [.item v]⟩], delivered := q.delivered ++ [v] }
  | [] => { q with waiting := q.waiting ++ [q.gets.length], gets := q.gets ++ [⟨timed, []⟩] }

end CursorItems

namespace World

def maybeFetchBatch (w : World V) : World V :=
  if w.error = none ∧ w.items.pending.length < w.threshold ∧ w.outstandingRequests = 0 then
    { w with outstandingRequests := w.outstandingRequests + 1 }
  else w

def isEmpty (w : World V) : Bool :=
  match w.error with
  | some .cursorEmpty => w.items.pending.isEmpty
  | _ => false

def hasError (w : World V) : Bool :=
  match w.error with
  | none | some .cursorEmpty => false
  | some _ => true

/-- `fetch_next` from the test of its loop on. What it returns goes to the user. -/
def fetchLoop (f : ℕ) (w : World V) : World V :=
  if w.items.pending = [] ∧ w.error = none then
    let w := w.maybeFetchBatch
    { w with waits := w.waits.await f }
  else
    { w with waits := w.waits.fire f (.result (!w.isEmpty || w.hasError)), users := w.users + 1 }

/-- `fetch_next`, with a timeout or without one. -/
def fetchNext (timed : Bool) (w : World V) : World V :=
  fetchLoop w.waits.fetches.length
    { w with waits := { w.waits with fetches := w.waits.fetches ++ [⟨none, timed, [], false⟩] } }

def getNext (timed : Bool) (w : World V) : World V :=
  match w.items.pending, w.error with
  | [], some e =>
    { w with items := { w.items with gets := w.items.gets ++ [⟨timed, [.error e]⟩] } }
  | _, _ => maybeFetchBatch { w with items := w.items.get timed }

def raised (w : World V) : World V := { w with closing := true, phase := .idle }

def put (v : V) (w : World V) : Option (World V) :=
  match w.items.waiting with
  | g :: gs =>
    if w.items.called g then none
    else
      let items := { w.items with waiting := gs, delivered := w.items.delivered ++ [v] }
      some { w with items := items.fire g (.item v), users := w.users + 1 }
  | [] => some { w with items := { w.items with pending := w.items.pending ++ [v] } }

/-- `d.callback(None)`, which is nothing when it raises `AlreadyCalledError`. -/
def callback (d : ℕ) (w : World V) : Option (World V) := do
  let waiter ← w.waits.waiters[d]?
  if waiter.called then none else some (fetchLoop waiter.fetch { w with waits := w.waits.call d })

/-- `_extend` up to the items of the response: it asks for more before it looks at them. -/
def respond (res : Response V) (w : World V) : World V :=
  let w := maybeFetchBatch { w with outstandingRequests := w.outstandingRequests - 1 }
  let w := { w with threshold := res.data.length, owed := w.waits.waiting }
  match w.error with
  | some _ => { w with phase := .stored }
  | none => match res.type with
    | .successPartial =>
      { w with phase := .put res.data false, received := w.received ++ res.data }
    | .successSequence =>
      { w with phase := .put res.data true, received := w.received ++ res.data }
    | _ => match res.makeError w.query with
      | .ok e => { w with error := some e, phase := .stored }
      | .error _ => w.raised

/-- The end of `_extend_internal`, and which loop is next. -/
def leaveStored (w : World V) : World V :=
  match w.error with
  | none => { w with phase := .wake w.waits.waiting }
  | some e =>
    if w.outstandingRequests = 0 then
      if w.cached then { w with cached := false, phase := .cancel e w.items.waiting } else w.raised
    else { w with phase := .cancel e w.items.waiting }

/-- `_extend` goes on. -/
def resume (w : World V) : World V :=
  match w.phase with
  | .idle => w
  | .put [] last =>
    { w with error := if last then some .cursorEmpty else w.error, phase := .stored }
  | .put (v :: data) last => match w.put v with
    | some w => { w with phase := .put data last }
    | none => w.raised
  | .stored => w.leaveStored
  | .cancel _ [] => { w with phase := .wake w.waits.waiting }
  | .cancel err (g :: getters) =>
    if w.items.called g then { w with phase := .cancelled g err getters }
    else
      { w with
        items := w.items.fire g (.error err), users := w.users + 1
        phase := .cancelled g err getters }
  | .cancelled g err getters =>
    if g ∈ w.items.waiting then
      { w with
        items := { w.items with waiting := w.items.waiting.erase g }, phase := .cancel err getters }
    else w.raised
  | .wake [] => { w with phase := .idle }
  | .wake (d :: waiters) => match w.callback d with
    | some w => { w with phase := .woken d waiters }
    | none => w.raised
  | .woken d waiters =>
    if d ∈ w.waits.waiting then
      { w with
        waits := { w.waits with waiting := w.waits.waiting.erase d }, phase := .wake waiters }
    else w.raised

/-- `item_defer.cancel()`, run by the timer of a `next`: `_cancelGet` wants it in the queue. -/
def cancelGet (g : ℕ) (w : World V) : World V :=
  if !w.items.called g ∧ g ∈ w.items.waiting then
    let items := { w.items with waiting := w.items.waiting.erase g }
    { w with items := items.fire g .timeout, users := w.users + 1 }
  else w

end World

/-- `enter` and `leave` are a user's function on the stack, called by the reactor or by a Deferred. -/
inductive Event (V : Type) where
  | enter | leave
  | fetchNext (timed : Bool)
  | next (timed : Bool)
  | timer (fetch : ℕ)
  | nextTimer (get : ℕ)
  | respond (res : Response V)
  | resume

/-- The reactor is between two events. -/
def World.Quiet (w : World V) : Prop := w.users = 0 ∧ w.phase matches .idle

instance (w : World V) : Decidable w.Quiet := by
  unfold World.Quiet
  infer_instance

/-- A response comes to a request the server has not answered, and says why it is an error. -/
def World.Due (res : Response V) (w : World V) : Prop :=
  w.Quiet ∧ w.cached = true ∧ 0 < w.outstandingRequests ∧ res.Explained

instance (res : Response V) (w : World V) : Decidable (w.Due res) := by
  unfold World.Due
  infer_instance

def step (w : World V) (e : Event V) : Option (World V) :=
  if w.closing then none
  else match e with
  | .enter => if w.Quiet then some { w with users := 1 } else none
  | .leave => if 0 < w.users then some { w with users := w.users - 1 } else none
  | .fetchNext timed => if 0 < w.users then some (w.fetchNext timed) else none
  | .next timed => if 0 < w.users then some (w.getNext timed) else none
  | .timer f =>
    if w.Quiet ∧ (w.waits.fetches[f]?.any Fetch.timed) then
      match w.waits.cancel f with
      | some waits => some { w with waits, users := 1 }
      -- cancelling a Deferred that was fired does nothing
      | none => some w
    else none
  | .nextTimer g =>
    if w.Quiet ∧ (w.items.gets[g]?.any Get.timed) then some (w.cancelGet g) else none
  | .respond res => if w.Due res then some (w.respond res) else none
  | .resume => if w.users = 0 then some w.resume else none

/-- `TwistedCursor.__init__`: it asks for the second batch before it takes the first. -/
def opened (query : Query V) (first : Response V) : World V where
  query := query
  items := ⟨first.data, [], [], []⟩
  outstandingRequests := 1
  threshold := first.data.length
  error := if first.type = .successSequence then some .cursorEmpty else none
  waits := ⟨[], [], []⟩
  cached := true
  closing := false
  users := 0
  phase := .idle
  received := first.data
  owed := []

def machine (query : Query V) : Machine (World V) (Event V) where
  init w := ∃ first : Response V,
    (first.type = .successPartial ∨ first.type = .successSequence) ∧ w = opened query first
  step w e w' := step w e = some w'

end RethinkDB.Twisted.Cursor
