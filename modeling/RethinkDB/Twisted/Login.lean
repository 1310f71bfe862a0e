import RethinkDB.Handshake.Agreement
import RethinkDB.Twisted.Protocol

/-! The handshake half of `DatabaseProtocol`: who fires `wait_for_handshake`. The data, the timer and the
loss of the connection come in any order. -/
namespace RethinkDB.Twisted
open RethinkDB.Lib Net Handshake Prog

inductive Timer where
  | pending | cancelled | called
  deriving Repr, DecidableEq

/-- What the handshake of a protocol works on: the handshake object, the timer, the `callback`s (`none`)
and `errback`s that `wait_for_handshake` was asked for, in order, and what was written. `handler` is
what `response_handler` works on. -/
structure Login (σ H : Type) where
  handshake : σ
  timer : Timer
  firings : List (Option String)
  written : List Bytes
  handler : H

/-- `handshake.next_message`, with the text of what it raises. -/
abbrev NextMessage (σ : Type) := Option Bytes → Prog σ String (Option Bytes)

namespace Login
variable {σ H : Type}

abbrev Protocol (σ H : Type) := DatabaseProtocol (Login σ H)

def login (m : Prog (Login σ H) String α) : Prog (Protocol σ H) String α :=
  zoom DatabaseProtocol.factory (fun factory d => { d with factory }) m

/-- `callback` and `errback`: a Deferred can be fired once. -/
def fire (failure : Option String) : Prog (Login σ H) String Unit := fun l =>
  (if l.firings = [] then .ok () else .error "AlreadyCalledError",
    { l with firings := l.firings ++ [failure] })

def cancelTimer : Prog (Login σ H) String Unit := fun l =>
  match l.timer with
  | .pending => (.ok (), { l with timer := .cancelled })
  | .cancelled => (.error "AlreadyCancelled", l)
  | .called => (.error "AlreadyCalled", l)

/-- A call of the handshake object. -/
def ask (m : Prog σ String α) : Prog (Login σ H) String α :=
  zoom handshake (fun handshake l => { l with handshake }) m

def write (request : Bytes) : Prog (Login σ H) String Unit :=
  modify fun l => { l with written := l.written ++ [request] }

/-- `connectionMade`: the first message, and the timer. -/
def connectionMade (reset : Prog σ String Unit) (nextMessage : NextMessage σ) :
    Prog (Protocol σ H) String Unit := login do
  ask reset
  match ← ask (nextMessage none) with
  | some request => write request
  | none => throw "Data must be bytes"
  modify fun l => { l with timer := .pending }

/-- What is done with an answer of the handshake object; `some []` is its `""`. -/
def answer : Option Bytes → Prog (Protocol σ H) String Unit
  | none => do
    modify fun d => { d with state := .ready }
    login cancelTimer
    login (fire none)
  | some request =>
    if request ≠ [] then login (write request) else pure ()

variable (nextMessage : NextMessage σ)

/-- The two branches of the loop of `_handleHandshake`. -/
def handleMessage : Option (Bytes × Bytes) → Prog (Protocol σ H) String Bool
  | some (response, buf) => do
    modify fun d => { d with buf }
    let request ← login (ask (nextMessage (some response)))
    answer request
    return true
  | none => return false

/-- A turn of the loop of `_handleHandshake`; a message ends at the first null byte. -/
def handshakeTurn : Prog (Protocol σ H) String Bool := do
  let d ← read id
  handleMessage nextMessage (cut 0 d.buf)

/-- `_handleHandshake`. Every turn that goes on takes a byte off `buf`. -/
def handleHandshake (data : Bytes) : Prog (Protocol σ H) String Unit :=
  handle
    (do
      modify fun d => { d with buf := d.buf ++ data }
      let d ← read id
      turns (handshakeTurn nextMessage) (d.buf.length + 1))
    fun e => login (fire (some e))

def handleHandshakeTimeout : Prog (Protocol σ H) String Unit := do
  modify fun d => { d with isOpen := false, losing := true }
  login (fire (some "ReqlTimeoutError"))

/-- `response_handler` has no hand in the handshake. -/
def respond (responseHandler : ResponseHandler H) : ResponseHandler (Login σ H) :=
  fun token payload => zoom handler (fun handler l => { l with handler }) (responseHandler token payload)

inductive Event where
  | data (chunk : Bytes)
  | timer
  | connectionLost
  deriving Repr, DecidableEq

variable (responseHandler : ResponseHandler H)

/-- What the reactor calls. -/
def onEvent : Event → Prog (Protocol σ H) String Unit
  | .data chunk =>
    DatabaseProtocol.dataReceived (respond responseHandler) (handleHandshake nextMessage) chunk
  | .timer => do
    let d ← read id
    if d.factory.timer = .pending then
      login (modify fun l => { l with timer := .called })
      handleHandshakeTimeout
  | .connectionLost => modify fun d => { d with isOpen := false }

/-- The reactor goes on when a handler raises. -/
def step (d : Protocol σ H) (e : Event) : Protocol σ H :=
  (onEvent nextMessage responseHandler e d).2

def run (d : Protocol σ H) (events : List Event) : Protocol σ H :=
  events.foldl (step nextMessage responseHandler) d

/-- A handler raises, and `response_handler` has no part in it. -/
def Raises (d : Protocol σ H) : Event → Prop
  | .data chunk => d.state = .waitingForHandshake ∧
    ∃ exc, (onEvent nextMessage responseHandler (.data chunk) d).1 = .error exc
  | e => ∃ exc, (onEvent nextMessage responseHandler e d).1 = .error exc

def Quiet : List Event → Protocol σ H → Prop
  | [], _ => True
  | e :: events, d =>
    ¬Raises nextMessage responseHandler d e ∧ Quiet events (step nextMessage responseHandler d e)

structure New (d : Protocol σ H) : Prop where
  state : d.state = .waitingForHandshake
  isOpen : d.isOpen = true
  firings : d.factory.firings = []

structure Made (d : Protocol σ H) : Prop where
  state : d.state = .waitingForHandshake
  isOpen : d.isOpen = true
  timer : d.factory.timer = .pending
  firings : d.factory.firings = []

theorem connectionMade_made {reset : Prog σ String Unit} {d d' : Protocol σ H} (hnew : New d)
    (hmade : connectionMade reset nextMessage d = (.ok (), d')) : Made d' := by
  have hpost : wp (connectionMade reset nextMessage) (fun o d' => o = .ok () → Made d') d := by
    unfold connectionMade login
    rw [wp_zoom, wp_bind, ask, wp_zoom]
    rcases hreset : reset d.factory.handshake with ⟨_ | e | _, h⟩
    · rw [wp_of_eq hreset, bindPost_ok, wp_bind, ask, wp_zoom]
      rcases hnext : nextMessage none h with ⟨(_ | request) | e | _, h'⟩
      · rw [wp_of_eq hnext, bindPost_ok, wp_bind, wp_throw, bindPost_error]
        intro hok
        cases hok
      · rw [wp_of_eq hnext, bindPost_ok, wp_bind, write, wp_modify, bindPost_ok, wp_modify]
        intro _
        exact ⟨hnew.state, hnew.isOpen, rfl, hnew.firings⟩
      · rw [wp_of_eq hnext, bindPost_error]
        intro hok
        cases hok
      · rw [wp_of_eq hnext]
        intro hok
        cases hok
    · rw [wp_of_eq hreset, bindPost_error]
      intro hok
      cases hok
    · rw [wp_of_eq hreset]
      intro hok
      cases hok
  rw [wp_of_eq hmade] at hpost
  exact hpost rfl

/-! ### Which data fires it once -/

def messages (buf : Bytes) : List Bytes := (buf.splitOn 0).dropLast

/-- The handshake object has an answer to each of the messages, and is not through. -/
def Silent : List Bytes → σ → Prop
  | [], _ => True
  | m :: ms, h => match nextMessage (some m) h with
    | (.ok (some _), h') => Silent ms h'
    | (.ok none, _) | (.error _, _) => False
    | (.running, _) => True

/-- No message after the one that ends the handshake ends it again, or fails. -/
def Once : List Bytes → σ → Prop
  | [], _ => True
  | m :: ms, h => match nextMessage (some m) h with
    | (.ok (some _), h') => Once ms h'
    | (.ok none, h') => Silent nextMessage ms h'
    | (.error _, _) | (.running, _) => True

/-- An event that asks nobody to fire the Deferred a second time. -/
def Spares (d : Protocol σ H) : Event → Prop
  | .data chunk => d.isOpen = true → d.state = .waitingForHandshake →
    if d.factory.firings = [] then Once nextMessage (messages (d.buf ++ chunk)) d.factory.handshake
    else Silent nextMessage (messages (d.buf ++ chunk)) d.factory.handshake
  | .timer => d.factory.timer = .pending → d.factory.firings = []
  | .connectionLost => True

/-- Each event of a run is such an event where it comes. -/
def Spared : List Event → Protocol σ H → Prop
  | [], _ => True
  | e :: events, d => Spares nextMessage d e ∧ Spared events (step nextMessage responseHandler d e)

theorem messages_cut {buf response rest : Bytes} (h : cut 0 buf = some (response, rest)) :
    messages buf = response :: messages rest := by
  obtain ⟨rfl, hnot⟩ := cut_eq_some h
  rw [messages, List.splitOn_append_cons_self_of_not_mem hnot, messages,
    List.dropLast_cons_of_ne_nil (List.splitOn_ne_nil _ _)]

theorem messages_none {buf : Bytes} (h : cut 0 buf = none) : messages buf = [] := by
  rw [messages, List.splitOn_eq_singleton (cut_eq_none h), List.dropLast_singleton]

/-- The loop with the `except` clause around it. -/
def handled (n : ℕ) : Prog (Protocol σ H) String Unit :=
  handle (turns (handshakeTurn nextMessage) n) fun e => login (fire (some e))

/-- The next message is taken off the buffer; the handshake object is left as `h`. -/
def popped (d : Protocol σ H) (buf : Bytes) (h : σ) : Protocol σ H :=
  { d with buf, factory := { d.factory with handshake := h } }

section Handled
variable {nextMessage} {d : Protocol σ H} {n : ℕ} {response rest : Bytes} {h : σ}

theorem handled_succ (n : ℕ) (d : Protocol σ H) :
    handled nextMessage (n + 1) d = match handshakeTurn nextMessage d with
      | (.ok true, d') => handled nextMessage n d'
      | (.ok false, d') => (.ok (), d')
      | (.error e, d') => login (fire (some e)) d'
      | (.running, d') => (.running, d') := by
  have hturns : turns (handshakeTurn nextMessage) (n + 1) d =
      after (fun again => if again then turns (handshakeTurn nextMessage) n else pure ())
        (handshakeTurn nextMessage d) := rfl
  unfold handled handle
  rw [hturns]
  rcases handshakeTurn nextMessage d with ⟨again | e | _, d'⟩
  · cases again <;> rfl
  · rfl
  · rfl

/-- A turn that finds a message. -/
theorem turn_message (hcut : cut 0 d.buf = some (response, rest)) :
    handshakeTurn nextMessage d = after (fun request => answer request >>= fun _ => pure true)
      ((nextMessage (some response) d.factory.handshake).1,
        popped d rest (nextMessage (some response) d.factory.handshake).2) := by
  change handleMessage nextMessage (cut 0 d.buf) d = _
  rw [hcut]
  rfl

/-- A turn that finds none. -/
theorem handled_none (hcut : cut 0 d.buf = none) : handled nextMessage (n + 1) d = (.ok (), d) := by
  have hturn : handshakeTurn nextMessage d = handleMessage nextMessage (cut 0 d.buf) d := rfl
  rw [handled_succ, hturn, hcut]
  rfl

structure Same (d d' : Protocol σ H) : Prop where
  firings : d'.factory.firings = d.factory.firings
  timer : d'.factory.timer = d.factory.timer
  state : d'.state = d.state
  isOpen : d'.isOpen = d.isOpen

theorem answer_request (request : Bytes) (d : Protocol σ H) :
    ∃ d', answer (some request) d = (.ok (), d') ∧ Same d d' ∧ d'.buf = d.buf ∧
      d'.factory.handshake = d.factory.handshake := by
  by_cases hempty : request = []
  · subst hempty
    exact ⟨d, rfl, ⟨rfl, rfl, rfl, rfl⟩, rfl, rfl⟩
  · have hanswer : answer (σ := σ) (H := H) (some request) =
        login (write request) := by
      simp only [answer, ne_eq, hempty, not_false_eq_true, if_true]
    rw [hanswer]
    exact ⟨_, rfl, ⟨rfl, rfl, rfl, rfl⟩, rfl, rfl⟩

/-- The handshake object has a request for the server, which may be empty. -/
theorem handled_request {request : Bytes} (hcut : cut 0 d.buf = some (response, rest))
    (hnext : nextMessage (some response) d.factory.handshake = (.ok (some request), h)) :
    ∃ d', handled nextMessage (n + 1) d = handled nextMessage n d' ∧ Same d d' ∧ d'.buf = rest ∧
      d'.factory.handshake = h := by
  obtain ⟨d', hanswer, hsame, hbuf, hhandshake⟩ := answer_request request (popped d rest h)
  have hturn : handshakeTurn nextMessage d = (.ok true, d') := by
    rw [turn_message hcut, hnext]
    exact bind_of_ok hanswer _
  refine ⟨d', ?_, ⟨hsame.firings, hsame.timer, hsame.state, hsame.isOpen⟩, hbuf, hhandshake⟩
  rw [handled_succ, hturn]

theorem handled_error {e : String} (hcut : cut 0 d.buf = some (response, rest))
    (hnext : nextMessage (some response) d.factory.handshake = (.error e, h)) :
    handled nextMessage (n + 1) d = login (fire (some e)) (popped d rest h) := by
  rw [handled_succ, turn_message hcut, hnext]
  rfl

theorem handled_running (hcut : cut 0 d.buf = some (response, rest))
    (hnext : nextMessage (some response) d.factory.handshake = (.running, h)) :
    handled nextMessage (n + 1) d = (.running, popped d rest h) := by
  rw [handled_succ, turn_message hcut, hnext]
  rfl

/-! ### The loop as a walk over the messages -/

/-- What the three ways to fire it go by. -/
structure Phase where
  state : ProtocolState
  timer : Timer
  firings : List (Option String)

def phase (d : Protocol σ H) : Phase := ⟨d.state, d.factory.timer, d.factory.firings⟩

def Phase.fresh : Phase := ⟨.waitingForHandshake, .pending, []⟩

/-- After a login that the server or the handshake object turned down. -/
def Phase.failed (e : String) : Phase := ⟨.waitingForHandshake, .pending, [some e]⟩

def Phase.done : Phase := ⟨.ready, .cancelled, [none]⟩

/-- The branch of `request is None`, with what the `except` clause adds to it: whether the loop goes
on. -/
def Phase.finish (p : Phase) : Bool × Phase :=
  match p.timer with
  | .pending =>
    if p.firings = [] then (true, .done)
    else (false, ⟨.ready, .cancelled, p.firings ++ [none] ++ [some "AlreadyCalledError"]⟩)
  | .cancelled => (false, ⟨.ready, .cancelled, p.firings ++ [some "AlreadyCancelled"]⟩)
  | .called => (false, ⟨.ready, .called, p.firings ++ [some "AlreadyCalled"]⟩)

variable (nextMessage) in
/-- The phase that a chunk with these messages leaves. -/
def walk : List Bytes → σ → Phase → Phase
  | [], _, p => p
  | m :: ms, h, p => match nextMessage (some m) h with
    | (.ok (some _), h') => walk ms h' p
    | (.ok none, h') => if p.finish.1 then walk ms h' p.finish.2 else p.finish.2
    | (.error e, _) => { p with firings := p.firings ++ [some e] }
    | (.running, _) => p

theorem Same.phase {d d' : Protocol σ H} (h : Same d d') : phase d' = phase d := by
  rw [Login.phase, Login.phase, h.state, h.timer, h.firings]

/-- The first time, the branch of `request is None` goes through. -/
theorem answer_fresh {d : Protocol σ H} (hgoes : (phase d).finish.1 = true) : ∃ d',
    answer none d = (.ok (), d') ∧ phase d' = (phase d).finish.2 ∧ d'.isOpen = d.isOpen ∧
      d'.buf = d.buf ∧ d'.factory.handshake = d.factory.handshake := by
  rcases d with ⟨state, buf, length, token, isOpen, losing, ⟨h, timer, firings, written, g⟩, calls⟩
  cases timer with
  | pending =>
    cases firings with
    | nil => exact ⟨_, rfl, rfl, rfl, rfl, rfl⟩
    | cons f fs => exact absurd hgoes Bool.false_ne_true
  | cancelled => exact absurd hgoes Bool.false_ne_true
  | called => exact absurd hgoes Bool.false_ne_true

/-- Later it raises, and the `except` clause fires the Deferred too. -/
theorem answer_again {d : Protocol σ H} (hends : (phase d).finish.1 = false) : ∃ e d',
    answer none d = (.error e, d') ∧ phase (login (fire (some e)) d').2 = (phase d).finish.2 ∧
      (login (fire (some e)) d').2.isOpen = d.isOpen := by
  rcases d with ⟨state, buf, length, token, isOpen, losing, ⟨h, timer, firings, written, g⟩, calls⟩
  cases timer with
  | pending =>
    cases firings with
    | nil => exact absurd hends.symm Bool.false_ne_true
    | cons f fs => exact ⟨_, _, rfl, rfl, rfl⟩
  | cancelled => exact ⟨_, _, rfl, rfl, rfl⟩
  | called => exact ⟨_, _, rfl, rfl, rfl⟩

/-- A Deferred that cannot be fired was fired before. -/
theorem fire_raises {failure : Option String} {exc : String} {d : Protocol σ H}
    (hraises : (login (fire failure) d).1 = .error exc) :
    2 ≤ (login (fire failure) d).2.factory.firings.length := by
  have hfired : d.factory.firings ≠ [] := by
    intro hnil
    have hok : (login (fire failure) d).1 = (if d.factory.firings = [] then .ok ()
      else .error "AlreadyCalledError") := rfl
    rw [hok, if_pos hnil] at hraises
    cases hraises
  have hlen := List.length_pos_of_ne_nil hfired
  change 2 ≤ (d.factory.firings ++ [failure]).length
  rw [List.length_append, List.length_singleton]
  omega

/-- What the loop comes to when it works on `p`. -/
structure Left (p : Phase) (isOpen : Bool) (r : Outcome String Unit × Protocol σ H) : Prop where
  phase : phase r.2 = p
  isOpen : r.2.isOpen = isOpen
  raises : ∀ exc, r.1 = .error exc → 2 ≤ r.2.factory.firings.length

variable (nextMessage) in
/-- The loop leaves the phase that the walk over the messages says. -/
theorem handled_walk (hn : d.buf.length < n) :
    Left (walk nextMessage (messages d.buf) d.factory.handshake (phase d)) d.isOpen
      (handled nextMessage n d) := by
  induction n generalizing d with
  | zero => omega
  | succ n ih =>
    cases hcut : cut 0 d.buf with
    | none =>
      rw [handled_none hcut, messages_none hcut]
      exact ⟨rfl, rfl, fun _ h => by cases h⟩
    | some pair =>
      obtain ⟨response, rest⟩ := pair
      have hrest : rest.length < n := by
        have hlen := congrArg List.length (cut_eq_some hcut).1
        simp only [List.length_append, List.length_cons] at hlen
        omega
      rw [messages_cut hcut, walk]
      rcases hnext : nextMessage (some response) d.factory.handshake with ⟨(_ | request) | e | _, h⟩
      · have hturn : handshakeTurn nextMessage d =
            (answer none >>= fun _ => pure true) (popped d rest h) := by
          rw [turn_message hcut, hnext]
          rfl
        cases hgoes : (phase d).finish.1 with
        | true =>
          obtain ⟨d', hanswer, hphase, hopen, hbuf, hhandshake⟩ :=
            answer_fresh (d := popped d rest h) hgoes
          rw [handled_succ, hturn, bind_of_ok hanswer]
          have hwalk := @ih d' (by rw [hbuf]; exact hrest)
          rw [hphase, hbuf, hhandshake, hopen] at hwalk
          exact hwalk
        | false =>
          obtain ⟨e, d', hanswer, hphase, hopen⟩ := answer_again (d := popped d rest h) hgoes
          rw [handled_succ, hturn, bind_of_error hanswer]
          exact ⟨hphase, hopen, fun _ h => fire_raises h⟩
      · obtain ⟨d', heq, hsame, rfl, rfl⟩ := handled_request (n := n) hcut hnext
        rw [heq, ← hsame.phase, ← hsame.isOpen]
        exact ih hrest
      · rw [handled_error hcut hnext]
        exact ⟨rfl, rfl, fun _ h => fire_raises h⟩
      · rw [handled_running hcut hnext]
        exact ⟨rfl, rfl, fun _ h => by cases h⟩

end Handled

/-! ### How often it fires -/

section Walk
variable {nextMessage : NextMessage σ} {ms : List Bytes} {h : σ} {p : Phase}

theorem Phase.finish_fires (p : Phase) : p.firings.length < p.finish.2.firings.length := by
  unfold Phase.finish
  rcases p with ⟨state, timer, firings⟩
  cases timer with
  | pending => cases firings <;> simp [Phase.done]
  | cancelled => simp
  | called => simp

theorem walk_grows (ms : List Bytes) (h : σ) (p : Phase) :
    p.firings.length ≤ (walk nextMessage ms h p).firings.length := by
  induction ms generalizing h p with
  | nil => exact Nat.le_refl _
  | cons m ms ih =>
    have hfinish := p.finish_fires
    rw [walk]
    split
    · exact ih _ _
    · split
      · exact hfinish.le.trans (ih _ _)
      · exact hfinish.le
    · simp
    · exact Nat.le_refl _

theorem walk_silent (hsilent : Silent nextMessage ms h) : walk nextMessage ms h p = p := by
  induction ms generalizing h with
  | nil => rfl
  | cons m ms ih =>
    rw [Silent] at hsilent
    rw [walk]
    split at hsilent
    · exact ih hsilent
    · exact hsilent.elim
    · exact hsilent.elim
    · rfl

theorem walk_loud (hloud : ¬Silent nextMessage ms h) :
    p.firings.length < (walk nextMessage ms h p).firings.length := by
  induction ms generalizing h with
  | nil => exact absurd trivial hloud
  | cons m ms ih =>
    have hfinish := p.finish_fires
    rw [Silent] at hloud
    rw [walk]
    split at hloud
    · exact ih hloud
    · split
      · exact hfinish.trans_le (walk_grows _ _ _)
      · exact hfinish
    · simp
    · exact absurd trivial hloud

theorem walk_once (honce : Once nextMessage ms h) :
    walk nextMessage ms h .fresh = .fresh ∨ (∃ e, walk nextMessage ms h .fresh = .failed e) ∨
      walk nextMessage ms h .fresh = .done := by
  induction ms generalizing h with
  | nil => exact .inl rfl
  | cons m ms ih =>
    rw [Once] at honce
    rw [walk]
    split at honce
    · exact ih honce
    · right; right
      exact walk_silent honce
    · exact .inr (.inl ⟨_, rfl⟩)
    · exact .inl rfl

theorem walk_twice (htwice : ¬Once nextMessage ms h) :
    2 ≤ (walk nextMessage ms h .fresh).firings.length := by
  induction ms generalizing h with
  | nil => exact absurd trivial htwice
  | cons m ms ih =>
    rw [Once] at htwice
    rw [walk]
    split at htwice
    · exact ih htwice
    · exact walk_loud (p := .done) htwice
    · exact absurd trivial htwice
    · exact absurd trivial htwice

end Walk

/-! ### Responses have no hand in it -/

section Responses
variable {responseHandler : ResponseHandler H} {d₀ d : Protocol σ H}

/-- `d` has the phase of `d₀`, and is open if `d₀` is. -/
def Still (d₀ d : Protocol σ H) : Prop := phase d = phase d₀ ∧ d.isOpen = d₀.isOpen

theorem Still.refl (d : Protocol σ H) : Still d d := ⟨rfl, rfl⟩

theorem readHeader_still (h : Still d₀ d) :
    wp DatabaseProtocol.readHeader (fun _ => Still d₀) d := by
  unfold DatabaseProtocol.readHeader
  simp only [wp_bind, wp_read, bindPost_ok, wp_ite, wp_pure]
  refine ⟨fun _ => ⟨fun _ => ?_, fun _ => h⟩, fun _ => h⟩
  cases DatabaseProtocol.unpack ((id d).buf.take 12) with
  | error e => exact h
  | ok pair => exact h

theorem respond_still (h : Still d₀ d) (token : Option ℤ) (payload : Bytes) :
    wp (DatabaseProtocol.respond (respond responseHandler) token payload) (fun _ => Still d₀) d := by
  unfold DatabaseProtocol.respond respond
  simp only [wp_bind, wp_modify, bindPost_ok, wp_zoom]
  exact h

theorem readPayload_still (h : Still d₀ d) :
    wp (DatabaseProtocol.readPayload (respond responseHandler)) (fun _ => Still d₀) d := by
  unfold DatabaseProtocol.readPayload
  simp only [wp_bind, wp_read, bindPost_ok, wp_ite, wp_pure]
  refine ⟨fun _ => h, fun _ => (respond_still h _ _).mono ?_⟩
  rintro (_ | _ | _) d' h'
  · exact h'
  · exact h'
  · exact h'

theorem handleTurn_still (h : Still d₀ d) :
    wp (DatabaseProtocol.handleTurn (respond responseHandler)) (fun _ => Still d₀) d := by
  unfold DatabaseProtocol.handleTurn
  rw [wp_bind]
  refine (readHeader_still h).mono ?_
  rintro (_ | _ | _) d' h'
  · rename_i found
    cases found with
    | true => exact readPayload_still h'
    | false => exact h'
  · exact h'
  · exact h'

variable (responseHandler) in
theorem handleResponse_still (h : Still d₀ d) (data : Bytes) :
    wp (DatabaseProtocol.handleResponse (respond responseHandler) data) (fun _ => Still d₀) d := by
  unfold DatabaseProtocol.handleResponse
  simp only [wp_bind, wp_modify, bindPost_ok, wp_read]
  refine wp_turns (I := Still d₀) (fun _ h' => h') (fun d' h' => ?_) _ h
  refine (handleTurn_still h').mono ?_
  rintro (_ | _ | _) d'' h''
  · rename_i again
    cases again <;> exact h''
  · exact h''
  · exact h''

end Responses

/-! ### Runs -/

section Runs
variable (nextMessage : NextMessage σ) (responseHandler : ResponseHandler H) {d : Protocol σ H}

/-- The phases of a protocol that has not fired twice, with whether it is open. -/
inductive Stage : Phase → Bool → Prop
  | fresh (isOpen : Bool) : Stage .fresh isOpen
  | failed (e : String) (isOpen : Bool) : Stage (.failed e) isOpen
  | done (isOpen : Bool) : Stage .done isOpen
  | expired : Stage ⟨.waitingForHandshake, .called, [some "ReqlTimeoutError"]⟩ false

theorem Stage.fires_once {p : Phase} {isOpen : Bool} (h : Stage p isOpen) : p.firings.length ≤ 1 := by
  cases h <;> simp [Phase.fresh, Phase.failed, Phase.done]

def picked (d : Protocol σ H) (handleHandshake : Bytes → Prog (Protocol σ H) String Unit)
    (chunk : Bytes) : Outcome String Unit × Protocol σ H :=
  (match d.state with
    | .waitingForHandshake => handleHandshake chunk
    | .ready => DatabaseProtocol.handleResponse (respond responseHandler) chunk) d

theorem dataReceived_open (hopen : d.isOpen = true)
    (handleHandshake : Bytes → Prog (Protocol σ H) String Unit) (chunk : Bytes) :
    Still (picked responseHandler d handleHandshake chunk).2
      (DatabaseProtocol.dataReceived (respond responseHandler) handleHandshake chunk d).2 ∧
    ∀ exc, (DatabaseProtocol.dataReceived (respond responseHandler) handleHandshake chunk d).1 =
      .error exc → ∃ exc, (picked responseHandler d handleHandshake chunk).1 = .error exc := by
  have hreceived : DatabaseProtocol.dataReceived (respond responseHandler) handleHandshake chunk d =
      handle (fun _ => picked responseHandler d handleHandshake chunk)
        (fun exc => do
          modify fun d => { d with losing := true }
          throw s!"Driver failed to handle received data.Error: {exc}. Dropping the connection.") d := by
    unfold DatabaseProtocol.dataReceived
    change (if d.isOpen = true then _ else pure () : Prog (Protocol σ H) String Unit) d = _
    rw [if_pos hopen]
    rfl
  rw [hreceived]
  unfold handle
  rcases picked responseHandler d handleHandshake chunk with ⟨a | e | _, d'⟩
  · exact ⟨⟨rfl, rfl⟩, fun _ h => by cases h⟩
  · exact ⟨⟨rfl, rfl⟩, fun _ _ => ⟨e, rfl⟩⟩
  · exact ⟨⟨rfl, rfl⟩, fun _ h => by cases h⟩

theorem dataReceived_closed (hopen : d.isOpen = false)
    (handleHandshake : Bytes → Prog (Protocol σ H) String Unit) (chunk : Bytes) :
    DatabaseProtocol.dataReceived (respond responseHandler) handleHandshake chunk d = (.ok (), d) := by
  unfold DatabaseProtocol.dataReceived
  change (if d.isOpen = true then _ else pure () : Prog (Protocol σ H) String Unit) d = _
  rw [if_neg (by simp [hopen])]
  rfl

theorem picked_handshake (hstate : d.state = .waitingForHandshake) (chunk : Bytes) :
    Left (walk nextMessage (messages (d.buf ++ chunk)) d.factory.handshake (phase d)) d.isOpen
      (picked responseHandler d (handleHandshake nextMessage) chunk) := by
  have hwalk := handled_walk nextMessage (d := { d with buf := d.buf ++ chunk })
    (Nat.lt_succ_self _)
  rw [picked, hstate]
  exact hwalk

/-- What a chunk does while the handshake is on. -/
theorem step_handshake (hopen : d.isOpen = true) (hstate : d.state = .waitingForHandshake)
    (chunk : Bytes) :
    phase (step nextMessage responseHandler d (.data chunk)) =
      walk nextMessage (messages (d.buf ++ chunk)) d.factory.handshake (phase d) ∧
    (step nextMessage responseHandler d (.data chunk)).isOpen = d.isOpen := by
  have hleft := picked_handshake nextMessage responseHandler hstate chunk
  have hstill := (dataReceived_open responseHandler hopen (handleHandshake nextMessage) chunk).1
  exact ⟨hstill.1.trans hleft.phase, hstill.2.trans hleft.isOpen⟩

/-- What a chunk does afterwards. -/
theorem step_still (h : d.isOpen = true → d.state = .ready) (chunk : Bytes) :
    Still d (step nextMessage responseHandler d (.data chunk)) := by
  cases hopen : d.isOpen with
  | false =>
    rw [step, onEvent, dataReceived_closed responseHandler hopen]
    exact ⟨rfl, rfl⟩
  | true =>
    have hresponse := handleResponse_still responseHandler (Still.refl d) chunk
    have hstill := (dataReceived_open responseHandler hopen (handleHandshake nextMessage) chunk).1
    rw [picked, h hopen] at hstill
    exact ⟨hstill.1.trans hresponse.1, hstill.2.trans hresponse.2⟩

theorem onEvent_timer (htimer : d.factory.timer = .pending) :
    onEvent nextMessage responseHandler .timer d =
      handleHandshakeTimeout { d with factory := { d.factory with timer := .called } } := by
  change (if d.factory.timer = .pending then _ else pure () : Prog (Protocol σ H) String Unit) d = _
  rw [if_pos htimer]
  rfl

theorem onEvent_timer_off (htimer : d.factory.timer ≠ .pending) :
    onEvent nextMessage responseHandler .timer d = (.ok (), d) := by
  change (if d.factory.timer = .pending then _ else pure () : Prog (Protocol σ H) String Unit) d = _
  rw [if_neg htimer]
  rfl

/-- The timer that goes off. -/
theorem step_timer (htimer : d.factory.timer = .pending) :
    phase (step nextMessage responseHandler d .timer) =
      ⟨d.state, .called, d.factory.firings ++ [some "ReqlTimeoutError"]⟩ ∧
    (step nextMessage responseHandler d .timer).isOpen = false := by
  rw [step, onEvent_timer nextMessage responseHandler htimer]
  exact ⟨rfl, rfl⟩

theorem step_timer_off (htimer : d.factory.timer ≠ .pending) :
    step nextMessage responseHandler d .timer = d := by
  rw [step, onEvent_timer_off nextMessage responseHandler htimer]

/-- A chunk comes to the handshake at two of the stages. -/
theorem Stage.waiting {p : Phase} {isOpen : Bool} (h : Stage p isOpen) (hopen : isOpen = true)
    (hstate : p.state = .waitingForHandshake) : p = .fresh ∨ ∃ e, p = .failed e := by
  cases h with
  | fresh => exact .inl rfl
  | failed e => exact .inr ⟨e, rfl⟩
  | done => exact ProtocolState.noConfusion hstate
  | expired => exact absurd hopen Bool.false_ne_true

/-- The timer is on at two of the stages. -/
theorem Stage.pending {p : Phase} {isOpen : Bool} (h : Stage p isOpen)
    (htimer : p.timer = .pending) : p = .fresh ∨ ∃ e, p = .failed e := by
  cases h with
  | fresh => exact .inl rfl
  | failed e => exact .inr ⟨e, rfl⟩
  | done => exact Timer.noConfusion htimer
  | expired => exact Timer.noConfusion htimer

/-- Where a chunk comes to the handshake. -/
theorem waiting_or_ready (d : Protocol σ H) :
    (d.isOpen = true ∧ d.state = .waitingForHandshake) ∨ (d.isOpen = true → d.state = .ready) := by
  cases hstate : d.state with
  | ready => exact .inr fun _ => rfl
  | waitingForHandshake =>
    cases hopen : d.isOpen with
    | true => exact .inl ⟨rfl, rfl⟩
    | false => exact .inr fun h => absurd h Bool.false_ne_true

/-- An event that spares the Deferred leaves one of the stages. -/
theorem step_spared (hstage : Stage (phase d) d.isOpen) (e : Event)
    (hspares : Spares nextMessage d e) :
    Stage (phase (step nextMessage responseHandler d e))
      (step nextMessage responseHandler d e).isOpen := by
  cases e with
  | connectionLost =>
    change Stage (phase d) false
    generalize phase d = p, d.isOpen = isOpen at hstage
    cases hstage with
    | fresh => exact .fresh false
    | failed e => exact .failed e false
    | done => exact .done false
    | expired => exact .expired
  | timer =>
    by_cases htimer : d.factory.timer = .pending
    · have hfirings : (phase d).firings = [] := hspares htimer
      obtain ⟨hphase, hopen⟩ := step_timer nextMessage responseHandler htimer
      rw [hphase, hopen]
      obtain hfresh | ⟨e, hfailed⟩ := hstage.pending htimer
      · have hstate : d.state = .waitingForHandshake := congrArg Phase.state hfresh
        rw [hstate, show d.factory.firings = [] from hfirings]
        exact .expired
      · rw [hfailed] at hfirings
        exact absurd hfirings (List.cons_ne_nil _ _)
    · rw [step_timer_off nextMessage responseHandler htimer]
      exact hstage
  | data chunk =>
    obtain ⟨hopen, hstate⟩ | hready := waiting_or_ready d
    · have hchunk := hspares hopen hstate
      obtain ⟨hphase, hstays⟩ := step_handshake nextMessage responseHandler hopen hstate chunk
      rw [hphase, hstays]
      obtain hfresh | ⟨e, hfailed⟩ := hstage.waiting hopen hstate
      · rw [if_pos (show d.factory.firings = [] from congrArg Phase.firings hfresh)] at hchunk
        rw [hfresh]
        obtain hwalk | ⟨e, hwalk⟩ | hwalk := walk_once hchunk
        · rw [hwalk]
          exact .fresh _
        · rw [hwalk]
          exact .failed e _
        · rw [hwalk]
          exact .done _
      · have hfirings : d.factory.firings = [some e] := congrArg Phase.firings hfailed
        rw [if_neg (by simp [hfirings])] at hchunk
        rw [walk_silent hchunk]
        exact hstage
    · obtain ⟨hphase, hstays⟩ := step_still nextMessage responseHandler hready chunk
      rw [hphase, hstays]
      exact hstage

/-- Any other event fires it again. -/
theorem step_unspared (hstage : Stage (phase d) d.isOpen) (e : Event)
    (hspares : ¬Spares nextMessage d e) :
    2 ≤ (step nextMessage responseHandler d e).factory.firings.length := by
  cases e with
  | connectionLost => exact absurd trivial hspares
  | timer =>
    rw [Spares, Classical.not_imp] at hspares
    have hfirings := congrArg Phase.firings (step_timer nextMessage responseHandler hspares.1).1
    have hfired := List.length_pos_of_ne_nil hspares.2
    change _ ≤ (phase _).firings.length
    rw [hfirings, List.length_append, List.length_singleton]
    omega
  | data chunk =>
    rw [Spares, Classical.not_imp, Classical.not_imp] at hspares
    obtain ⟨hopen, hstate, hchunk⟩ := hspares
    have hphase := (step_handshake nextMessage responseHandler hopen hstate chunk).1
    change _ ≤ (phase _).firings.length
    rw [hphase]
    obtain hfresh | ⟨e, hfailed⟩ := hstage.waiting hopen hstate
    · rw [if_pos (show d.factory.firings = [] from congrArg Phase.firings hfresh)] at hchunk
      rw [hfresh]
      exact walk_twice hchunk
    · have hfirings : d.factory.firings = [some e] := congrArg Phase.firings hfailed
      rw [if_neg (by simp [hfirings])] at hchunk
      have hloud := walk_loud (p := phase d) hchunk
      have hone : (phase d).firings.length = 1 := congrArg List.length hfirings
      omega

/-- Nothing takes a firing back. -/
theorem step_grows (d : Protocol σ H) (e : Event) :
    d.factory.firings.length ≤ (step nextMessage responseHandler d e).factory.firings.length := by
  change _ ≤ (phase _).firings.length
  cases e with
  | connectionLost => exact Nat.le_refl _
  | timer =>
    by_cases htimer : d.factory.timer = .pending
    · rw [(step_timer nextMessage responseHandler htimer).1, List.length_append]
      exact Nat.le_add_right _ _
    · rw [step_timer_off nextMessage responseHandler htimer]
      exact Nat.le_refl _
  | data chunk =>
    obtain ⟨hopen, hstate⟩ | hready := waiting_or_ready d
    · rw [(step_handshake nextMessage responseHandler hopen hstate chunk).1]
      exact walk_grows _ _ (phase d)
    · rw [(step_still nextMessage responseHandler hready chunk).1]
      exact Nat.le_refl _

theorem run_grows (events : List Event) (d : Protocol σ H) :
    d.factory.firings.length ≤ (run nextMessage responseHandler d events).factory.firings.length := by
  induction events generalizing d with
  | nil => exact Nat.le_refl _
  | cons e events ih => exact (step_grows nextMessage responseHandler d e).trans (ih _)

/-- A handler of the handshake raises only when it fires the Deferred again. -/
theorem raises_twice {e : Event} (hraises : Raises nextMessage responseHandler d e) :
    2 ≤ (step nextMessage responseHandler d e).factory.firings.length := by
  cases e with
  | connectionLost =>
    obtain ⟨exc, hexc⟩ := hraises
    cases hexc
  | timer =>
    obtain ⟨exc, hexc⟩ := hraises
    by_cases htimer : d.factory.timer = .pending
    · rw [onEvent_timer nextMessage responseHandler htimer] at hexc
      rw [step, onEvent_timer nextMessage responseHandler htimer]
      exact fire_raises hexc
    · rw [onEvent_timer_off nextMessage responseHandler htimer] at hexc
      cases hexc
  | data chunk =>
    obtain ⟨hstate, exc, hexc⟩ := hraises
    cases hopen : d.isOpen with
    | false =>
      rw [onEvent, dataReceived_closed responseHandler hopen] at hexc
      cases hexc
    | true =>
      obtain ⟨hstill, hfails⟩ :=
        dataReceived_open responseHandler hopen (handleHandshake nextMessage) chunk
      obtain ⟨exc', hexc'⟩ := hfails exc hexc
      have htwice := (picked_handshake nextMessage responseHandler hstate chunk).raises exc' hexc'
      have hfirings := congrArg Phase.firings hstill.1
      change 2 ≤ (phase _).firings.length
      rw [step, onEvent, hfirings]
      exact htwice

/-- From any of the stages on. -/
theorem run_fires_once_iff (hstage : Stage (phase d) d.isOpen) (events : List Event) :
    (run nextMessage responseHandler d events).factory.firings.length ≤ 1 ↔
      Spared nextMessage responseHandler events d := by
  induction events generalizing d with
  | nil => exact ⟨fun _ => trivial, fun _ => hstage.fires_once⟩
  | cons e events ih =>
    rw [Spared]
    by_cases hspares : Spares nextMessage d e
    · rw [and_iff_right hspares]
      exact ih (step_spared nextMessage responseHandler hstage e hspares)
    · constructor
      · intro honce
        have htwice := step_unspared nextMessage responseHandler hstage e hspares
        have hgrows := run_grows nextMessage responseHandler events
          (step nextMessage responseHandler d e)
        change (run nextMessage responseHandler (step nextMessage responseHandler d e)
          events).factory.firings.length ≤ 1 at honce
        omega
      · intro hspared
        exact absurd hspared.1 hspares

theorem quiet_of_once {events : List Event}
    (honce : (run nextMessage responseHandler d events).factory.firings.length ≤ 1) :
    Quiet nextMessage responseHandler events d := by
  induction events generalizing d with
  | nil => trivial
  | cons e events ih =>
    constructor
    · intro hraises
      have htwice := raises_twice nextMessage responseHandler hraises
      have hgrows := run_grows nextMessage responseHandler events
        (step nextMessage responseHandler d e)
      change (run nextMessage responseHandler (step nextMessage responseHandler d e)
        events).factory.firings.length ≤ 1 at honce
      omega
    · exact ih honce

theorem Made.fires_once_iff_spared (hmade : Made d) (events : List Event) :
    (run nextMessage responseHandler d events).factory.firings.length ≤ 1 ↔
      Spared nextMessage responseHandler events d := by
  have hphase : phase d = .fresh := by
    rw [phase, hmade.state, hmade.timer, hmade.firings]
    rfl
  apply run_fires_once_iff
  rw [hphase]
  exact .fresh _

/-- Exactly the runs of sparing events fire `wait_for_handshake` at most once, and have no handler
raise. -/
theorem fires_once_iff (hmade : Made d) (events : List Event) :
    ((run nextMessage responseHandler d events).factory.firings.length ≤ 1 ∧
      Quiet nextMessage responseHandler events d) ↔ Spared nextMessage responseHandler events d := by
  have honce := hmade.fires_once_iff_spared nextMessage responseHandler events
  constructor
  · intro h
    exact honce.mp h.1
  · intro hspared
    exact ⟨honce.mpr hspared, quiet_of_once nextMessage responseHandler (honce.mpr hspared)⟩

end Runs

/-- A call of `HandshakeV1_0`, with `told` for the text of what it raises. -/
def telling (told : HandshakeExn → String) (m : Client.Step α) : Prog Session String α := fun h =>
  match m h with
  | (.ok a, h') => (.ok a, h')
  | (.error e, h') => (.error (told e), h')
  | (.running, h') => (.running, h')

/-- `HandshakeV1_0` as the handshake object. -/
def messagesOf (C : Client) (told : HandshakeExn → String) : NextMessage Session := fun response =>
  telling told (C.nextMessage response)

/-- The sample client once its connection is made, but for what was written. -/
def sampleLogin : Protocol Session Unit where
  state := .waitingForHandshake
  buf := []
  bufExpectedLength := 0
  bufToken := none
  isOpen := true
  losing := false
  factory := ⟨{ Session.new fun _ => [255] with state := 1 }, .pending, [], [], ()⟩
  calls := []

/-- The time is up in the middle of the first response. -/
theorem fires_once_late :
    (run (messagesOf sampleClient fun _ => "ReqlAuthError") (fun _ _ => pure ()) sampleLogin
      [.data [123], .timer, .data [125, 0]]).factory.firings.length ≤ 1 ∧
    Quiet (messagesOf sampleClient fun _ => "ReqlAuthError") (fun _ _ => pure ())
      [.data [123], .timer, .data [125, 0]] sampleLogin := by
  have hmade : Made sampleLogin := ⟨rfl, rfl, rfl, rfl⟩
  apply (fires_once_iff _ _ hmade _).mpr
  exact ⟨fun _ _ => trivial, fun _ => rfl, fun hopen => absurd hopen Bool.false_ne_true, trivial⟩

/-! ### A login that is turned down -/

/-- What a server of this kind writes has no null byte in it. -/
theorem nul_not_mem_reject {S : Server} {jsonDecode : String → Except String Json}
    (hfrom : Codec S.jsonEncode jsonDecode) {error : String} (herror : AsciiText error)
    (errorCode : ℤ) : 0 ∉ S.reject error errorCode := by
  have hescapes := hfrom.escapes _ (plain_reject herror errorCode)
  rw [Server.reject, utf8Encode_of_ascii fun c hc => (hescapes c hc).2, List.mem_map]
  rintro ⟨c, hc, hnul⟩
  obtain ⟨hpos, hascii⟩ := hescapes c hc
  have hnat := congrArg UInt8.toNat hnul
  rw [UInt8.toNat_ofNat_of_lt' (by rw [UInt8.size]; omega)] at hnat
  exact hpos.ne' hnat

section Rejected
variable {C : Client} {S : Server} (told : HandshakeExn → String)
  (responseHandler : ResponseHandler H)

/-- After the first response turns the login down, the timer fires the Deferred again. -/
theorem reject_then_timer (hfrom : Codec S.jsonEncode C.jsonDecode) {d : Protocol Session H}
    (hmade : Made d) (hbuf : d.buf = []) (hstate : d.factory.handshake.state = 1) {error : String}
    (herror : AsciiText error) {errorCode : ℤ} (hcode : 10 ≤ errorCode ∧ errorCode ≤ 20) :
    ¬Spared (messagesOf C told) responseHandler [.data (S.reject error errorCode ++ [0]), .timer] d := by
  have hcut : cut 0 (S.reject error errorCode ++ [0]) = some (S.reject error errorCode, []) :=
    cut_append (nul_not_mem_reject hfrom herror errorCode) []
  have hnext : messagesOf C told (some (S.reject error errorCode)) d.factory.handshake =
      (.error (told (.auth (.str error) C.host C.port)), d.factory.handshake) := by
    rw [messagesOf, telling, nextMessage_reject hfrom hstate herror hcode]
  obtain ⟨hphase, -⟩ := step_handshake (messagesOf C told) responseHandler hmade.isOpen hmade.state
    (S.reject error errorCode ++ [0])
  rw [hbuf, List.nil_append, messages_cut hcut, walk, hnext] at hphase
  intro hspared
  have hfirings := hspared.2.1 ((congrArg Phase.timer hphase).trans hmade.timer)
  have hfired := congrArg Phase.firings hphase
  rw [show (phase _).firings = _ from hfirings] at hfired
  exact List.cons_ne_nil _ _ (List.append_eq_nil_iff.mp hfired.symm).2

/-- The connection is made with the first message of the client. -/
theorem connectionMade_first {d : Protocol Session H} {first : Bytes} {h : Session}
    (hfirst : C.nextMessage none (Client.reset d.factory.handshake).2 = (.ok (some first), h)) :
    connectionMade (telling told Client.reset) (messagesOf C told) d = (.ok (), { d with
      factory := { d.factory with
        handshake := h
        written := d.factory.written ++ [first]
        timer := .pending } }) := by
  have hreset : telling told Client.reset d.factory.handshake =
      (.ok (), (Client.reset d.factory.handshake).2) := rfl
  have hnext : messagesOf C told none (Client.reset d.factory.handshake).2 = (.ok (some first), h) := by
    rw [messagesOf, telling, hfirst]
  apply eq_of_wp
  unfold connectionMade login
  rw [wp_zoom, wp_bind, ask, wp_zoom, wp_of_eq hreset, bindPost_ok, wp_bind, ask, wp_zoom,
    wp_of_eq hnext, bindPost_ok, wp_bind, write, wp_modify, bindPost_ok, wp_modify]
  exact ⟨rfl, rfl⟩

end Rejected

/-- The sample client before its connection is made, which has no timer yet. -/
def sampleProtocol : Protocol Session Unit :=
  { sampleLogin with factory := ⟨Session.new fun _ => [255], .cancelled, [], [], ()⟩ }

/-- A wrong password, and a timer that is still on. -/
theorem rejected_login_fires_twice : ∃ d : Protocol Session Unit,
    connectionMade (telling (fun _ => "ReqlAuthError") Client.reset)
      (messagesOf sampleClient fun _ => "ReqlAuthError") sampleProtocol = (.ok (), d) ∧
    ¬((run (messagesOf sampleClient fun _ => "ReqlAuthError") (fun _ _ => pure ()) d
        [.data (sampleServer.reject "Wrong password" 17 ++ [0]), .timer]).factory.firings.length ≤ 1 ∧
      Quiet (messagesOf sampleClient fun _ => "ReqlAuthError") (fun _ _ => pure ())
        [.data (sampleServer.reject "Wrong password" 17 ++ [0]), .timer] d) := by
  obtain ⟨first, -, -, -, hfirst, -⟩ := first_messages (C := sampleClient) (S := sampleServer)
    (codec_json _) (codec_json _) rfl rfl (by decide) ⟨by decide, by decide⟩ rfl (fun _ => [255]) rfl
  have hreset : (Client.reset sampleProtocol.factory.handshake).2 = Session.new fun _ => [255] := rfl
  rw [← hreset] at hfirst
  have hmade := connectionMade_first (fun _ => "ReqlAuthError") hfirst
  have hleft := connectionMade_made _ ⟨rfl, rfl, rfl⟩ hmade
  refine ⟨_, hmade, fun honce => ?_⟩
  have hspared := (hleft.fires_once_iff_spared _ _ _).mp honce.1
  exact reject_then_timer _ _ (codec_json _) hleft rfl rfl (by decide) (by omega) hspared

end Login
end RethinkDB.Twisted
