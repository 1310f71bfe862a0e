import RethinkDB.Lib.Machine
import RethinkDB.Net.Civil
import RethinkDB.Net.Wire

/-! The life of a blocking `Connection` over any sequence of calls, under any pattern of failures:
what goes wrong is told by a `ReqlError`, and a `reconnect` starts afresh. -/
namespace RethinkDB.Net
open RethinkDB.Lib Prog

variable {V : Type} {P : Peer V} {proper : Bytes → Prop}

namespace Driver

/-- The server has the `NOREPLY_WAIT` of a `close`. -/
def asked (d : Driver P) : Driver P :=
  let query := d.termlessQuery .noreplyWait d.nextToken
  { d with io := { d.io with peer := P.receive d.io.peer query } }

/-- The `NOREPLY_WAIT` of `close` is sent without failure, and its answer comes, behind whatever else
the server still sends. -/
structure Heard (d : Driver P) : Prop where
  isOpen : d.io.isOpen = true
  sends : ∀ o ∈ d.io.sends, o.Soft
  answered : ∃ (before after : List Frame) (own : Frame) (m : Message V),
    (∀ f ∈ before, f.token ≠ d.nextToken) ∧ own.token = d.nextToken ∧
      d.jsonDecoder own.payload = .ok m ∧ m.type = .waitComplete ∧
      d.asked.Inbound (before ++ own :: after) ∧
      (encodeFrames (before ++ [own])).length ≤ d.asked.stock

theorem Heard.token_lt {d : Driver P} (h : d.Heard) : d.nextToken < 2 ^ 64 := by
  obtain ⟨before, after, own, m, -, hown, -⟩ := h.answered
  have := own.token_lt
  omega

theorem closeInstance_heard {n : ℕ} {b k : ℤ} {d : Driver P}
    (h : Tidy proper n b k { d with nextToken := 0 }) (hnonneg : 0 ≤ d.nextToken) (hheard : d.Heard) :
    wp (closeInstance true d.nextToken) (fun o _ => o = .ok ()) { d with nextToken := 0 } := by
  obtain ⟨before, after, own, m, hbefore, hown, hdec, hcomplete, hin, hstock⟩ := hheard.answered
  obtain ⟨message, hserialize, -⟩ :=
    termlessQuery_serialize (d := d) .noreplyWait hnonneg hheard.token_lt
  refine closeInstance_of h fun cursors htidy => ?_
  let query := d.termlessQuery .noreplyWait d.nextToken
  let d₁ : Driver P := { d with nextToken := 0, closing := true, cursors, cursorCache := ∅ }
  have hin₁ : ∀ sends sent,
      Inbound { d₁ with io := { d₁.io with sends, sent, peer := P.receive d₁.io.peer query } }
        (before ++ own :: after) :=
    fun sends sent => ⟨hin.isOpen, hin.buffer, hin.soft, hin.header, hin.bytes⟩
  rw [if_pos rfl, wp_ensure, wp_termless]
  exact (runDetached_waits (d := d₁) hheard.isOpen hheard.sends hserialize rfl rfl hbefore hown hdec
    hcomplete hin₁ fun sends sent => hstock).mono fun o d' hpost => hpost.1

/-- On a closed socket there is nothing to wait for. -/
theorem closeInstance_broken {n : ℕ} {b k : ℤ} {d : Driver P} {token : ℤ} (h : Tidy proper n b k d)
    (hnonneg : 0 ≤ token) (hlt : token < 2 ^ 64) (hclosed : d.io.isOpen = false) :
    wp (closeInstance true token) (fun o _ => ∃ e, o = .error e) d := by
  refine closeInstance_of h fun cursors htidy => ?_
  obtain ⟨message, hmessage, hne⟩ := termlessQuery_serialize (d := d) .noreplyWait hnonneg hlt
  have hsend : Transport.sendall (V := V) message d.io = (.error (.driver
      s!"Error sending to {d.io.host}:{d.io.port} - 'NoneType' object has no attribute 'send'"), d.io) := by
    unfold Transport.sendall
    rw [if_neg hne, if_neg (by simp [hclosed])]
  rw [if_pos rfl, wp_ensure, wp_termless]
  unfold runDetached sendQuery
  refine (wp_bind ..).mpr ((wp_ofExcept_bind_ok hmessage).mpr ?_)
  rw [wp_bind, socket, wp_zoom, wp_of_eq hsend]
  exact ⟨_, rfl⟩

end Driver

namespace Connection

structure Unused (proper : Bytes → Prop) (c : Connection P) : Prop where
  stage : c.stage = .none
  token : c.driver.nextToken = 0
  default : Sound proper c.driver.jsonDecoder
  dummy : proper c.driver.numbering.dummyResponse

/-- A call of a method, with what the connection attempt it makes comes to. -/
inductive Usage (P : Peer V) where
  | isOpen
  | checkOpen
  | close (noreplyWait : Bool)
  | reconnect (noreplyWait : Bool) (attempt : Except ConnectFailure (Transport P))
  | run (term : Option V) (body : Except String Bytes) (jsonDecoder : Option (Decoder V))
      (noreply : Bool)
  | noreplyWait
  | server

inductive Result (V : Type) where
  | flag (b : Bool)
  | none
  | reply (r : Reply V)
  deriving Repr, DecidableEq

def Usage.call : Usage P → Action P (Result V)
  | .isOpen => do
    let b ← Connection.isOpen
    return .flag b
  | .checkOpen => do
    Connection.checkOpen
    return .none
  | .close wait => do
    Connection.close wait
    return .none
  | .reconnect wait attempt => do
    Connection.reconnect wait attempt
    return .none
  | .run term body jsonDecoder noreply => do
    let r ← perform (.run term body jsonDecoder noreply)
    return .reply r
  | .noreplyWait => do
    let r ← perform .noreplyWait
    return .reply r
  | .server => do
    let r ← perform .server
    return .reply r

def lifecycle (proper : Bytes → Prop) : Machine (Connection P) (Usage P) where
  init := Unused proper
  step c u c' := (u.call c).1 ≠ .running ∧ c' = (u.call c).2

/-- The instance can take a query: no frame is half read on an open socket, and there are tokens left. -/
structure Asks (proper : Bytes → Prop) (c : Connection P) : Prop where
  inStep : c.driver.io.isOpen = true → c.driver.InStep proper
  token : c.driver.nextToken < 2 ^ 64

/-- The calls for which all is well. -/
def Allowed (proper : Bytes → Prop) (c : Connection P) : Usage P → Prop
  | .isOpen | .checkOpen => True
  | .close noreplyWait => noreplyWait = true → c.stage = .connected → c.Asks proper
  | .reconnect noreplyWait (.ok io) => io.isOpen = true ∧ io.Uninterrupted ∧
      (noreplyWait = true → c.stage = .connected → c.Asks proper ∧ c.driver.Heard)
  | .reconnect noreplyWait (.error _) => noreplyWait = true ∧ c.stage = .connected ∧
      c.driver.io.isOpen = false ∧ c.driver.nextToken < 2 ^ 64
  | .run _ body jsonDecoder _ => c.stage = .connected → c.driver.io.isOpen = true → c.Asks proper ∧
      (∃ bytes, body = .ok bytes ∧ bytes.length < 2 ^ 32) ∧
      ∀ decoder, jsonDecoder = some decoder → Sound proper decoder
  | .noreplyWait | .server => c.stage = .connected → c.driver.io.isOpen = true → c.Asks proper

/-- A new instance on the socket `io`. -/
structure Renewed (io : Transport P) (c : Connection P) : Prop where
  isOpen : isOpen c = (.ok true, c)
  io : c.driver.io = io
  cache : c.driver.cursorCache = ∅
  header : c.driver.headerInProgress = none
  closing : c.driver.closing = false
  token : c.driver.nextToken = 0
  former : c.former = c.driver.cursors.length

/-- What the calls are for. -/
def Usage.Serves (c : Connection P) (o : Outcome (Exn V) (Result V)) (c' : Connection P) : Usage P → Prop
  | .isOpen => ∃ b, o = .ok (.flag b) ∧ c' = c
  | .close _ => o ≠ .running → Connection.isOpen c' = (.ok false, c')
  | .reconnect _ attempt => (∀ e, o = .error e → Connection.isOpen c' = (.ok false, c')) ∧
      ∀ io, attempt = .ok io → o = .ok .none ∧ Renewed io c'
  | _ => True

/-- A call does what it is for, or raises a `ReqlError`. -/
structure Lawful (u : Usage P) (c : Connection P) : Prop where
  serves : u.Serves c (u.call c).1 (u.call c).2
  reql : ∀ e, (u.call c).1 = .error e → e.Reql

/-! ### What is true between calls -/

/-- Either there is no instance, or one with a socket and with its books in order. -/
structure Sane (proper : Bytes → Prop) (c : Connection P) : Prop where
  built : c.stage ≠ .unconnected
  default : Sound proper c.driver.jsonDecoder
  dummy : proper c.driver.numbering.dummyResponse
  idle : c.stage = .none → c.driver.nextToken = 0
  tidy : c.stage = .connected → c.driver.Tidy proper c.former c.driver.nextToken c.driver.nextToken

section Sane
variable {c : Connection P}

theorem Unused.sane (h : c.Unused proper) : c.Sane proper := by
  have hstage := h.stage
  refine ⟨?_, h.default, h.dummy, fun _ => h.token, ?_⟩
  · simp [hstage]
  · simp [hstage]

/-- The books of a driver in use tell what a `Sane` connection needs. -/
theorem Sane.of_tidy {driver : Driver P} (hstage : c.stage = .connected)
    (h : driver.Tidy proper c.former driver.nextToken driver.nextToken) :
    Sane proper { c with driver } := by
  refine ⟨?_, h.default, h.dummy, ?_, fun _ => h⟩
  · simp [hstage]
  · simp [hstage]

theorem isOpen_none (hstage : c.stage = .none) : isOpen c = (.ok false, c) := by
  obtain ⟨driver, stage, host, port, former⟩ := c
  dsimp only at hstage
  subst hstage
  rfl

theorem isOpen_connected (hstage : c.stage = .connected) :
    isOpen c = (.ok c.driver.io.isOpen, c) := by
  obtain ⟨driver, stage, host, port, former⟩ := c
  dsimp only at hstage
  subst hstage
  rfl

/-- The instance is let go of before it is closed. -/
theorem close_connected (hstage : c.stage = .connected) {noreplyWait : Bool}
    {Q : Outcome (Exn V) Unit → Connection P → Prop} :
    wp (close noreplyWait) Q c ↔ wp (Driver.closeInstance noreplyWait c.driver.nextToken)
      (fun o d' => Q o { c with driver := d', stage := .none, former := c.driver.cursors.length })
      { c.driver with nextToken := 0 } := by
  obtain ⟨driver, stage, host, port, former⟩ := c
  dsimp only at hstage
  subst hstage
  rfl

theorem close_none (hstage : c.stage = .none) {noreplyWait : Bool}
    {Q : Outcome (Exn V) Unit → Connection P → Prop} : wp (close noreplyWait) Q c ↔ Q (.ok ()) c := by
  obtain ⟨driver, stage, host, port, former⟩ := c
  dsimp only at hstage
  subst hstage
  rfl

/-- The books when the tokens start anew. -/
theorem Sane.letGo (h : c.Sane proper) (hstage : c.stage = .connected) :
    Driver.Tidy proper c.former c.driver.nextToken 0 { c.driver with nextToken := 0 } :=
  { h.tidy hstage with next := rfl }

/-- What a `close` leaves. -/
theorem close_sane (h : c.Sane proper) {wait : Bool}
    (hasks : wait = true → c.stage = .connected → c.Asks proper) (hserver : P.Sends proper) :
    wp (close wait) (fun o c' => (o ≠ .running → c'.Sane proper ∧ c'.stage = .none) ∧
      (∀ e, o = .error e → e.Reql) ∧
      (wait = false ∨ c.stage = .none → o = .ok ())) c := by
  cases hstage : c.stage with
  | unconnected => exact absurd hstage h.built
  | none =>
    rw [close_none hstage]
    exact ⟨fun _ => ⟨h, hstage⟩, nofun, fun _ => rfl⟩
  | connected =>
    rw [close_connected hstage]
    refine (Driver.closeInstance_civil hserver wait (h.letGo hstage) rfl
      (fun hwait => (hasks hwait hstage).token)
      fun hwait hopen => ((hasks hwait hstage).inStep hopen).of_same rfl rfl).mono ?_
    rintro o d' ⟨hok, hover, hreql⟩
    refine ⟨fun hback => ?_, hreql, ?_⟩
    · obtain ⟨htidy, -⟩ := hover hback
      exact ⟨⟨nofun, htidy.default, htidy.dummy, fun _ => htidy.next, nofun⟩, rfl⟩
    · rintro (hwait | hno)
      · exact hok hwait
      · cases hno

/-- With no instance left, a new one is fresh. -/
theorem connect_renews (h : c.Sane proper) (hstage : c.stage = .none) {io : Transport P}
    (hopen : io.isOpen = true) (hsends : io.Uninterrupted) :
    wp (modify renew >>= fun _ => connect (.ok io)) (fun o c' => o = .ok () ∧ c'.Sane proper ∧
      Renewed io c') c := by
  have htoken := h.idle hstage
  have hnone : ∀ (id : ℕ) (k : Cursor V), c.driver.cursors.length ≤ id → c.driver.cursors[id]? ≠ some k := by
    intro id k hid hk
    have := (List.getElem?_eq_some_iff.mp hk).1
    omega
  rw [wp_bind, wp_modify, bindPost_ok]
  unfold connect
  rw [wp_modify]
  refine ⟨rfl, ⟨nofun, h.default, h.dummy, nofun, fun _ => ?_⟩, ?_⟩
  · refine ⟨h.default, h.dummy, hsends, le_rfl, htoken.ge, rfl, ?_, ?_, ?_, ?_, ?_⟩
    · exact fun id k hid hk => absurd hk (hnone id k hid)
    · exact fun id id' k k' hid _ hk => absurd hk (hnone id k hid)
    · exact nofun
    · exact fun id k hid hk => absurd hk (hnone id k hid)
    · exact fun id k hid hk => absurd hk (hnone id k hid)
  · refine ⟨?_, rfl, rfl, rfl, rfl, htoken, rfl⟩
    rw [isOpen_connected rfl]
    show (Outcome.ok io.isOpen, _) = _
    rw [hopen]

/-- A `reconnect` whose attempt succeeds. -/
theorem reconnect_renews (h : c.Sane proper) {noreplyWait : Bool} {io : Transport P}
    (hopen : io.isOpen = true) (hsends : io.Uninterrupted)
    (hheard : noreplyWait = true → c.stage = .connected → c.Asks proper ∧ c.driver.Heard) (hserver : P.Sends proper) :
    wp (reconnect noreplyWait (.ok io)) (fun o c' => o = .ok () ∧ c'.Sane proper ∧ Renewed io c') c := by
  have hclosed : wp (close noreplyWait) (fun o c' => o = .ok () ∧ c'.Sane proper ∧ c'.stage = .none) c := by
    by_cases hwait : noreplyWait = true ∧ c.stage = .connected
    · obtain ⟨rfl, hstage⟩ := hwait
      obtain ⟨hasks, hheard⟩ := hheard rfl hstage
      have hnonneg : 0 ≤ c.driver.nextToken := (h.tidy hstage).bound
      have hok : wp (close true) (fun o _ => o = .ok ()) c := by
        rw [close_connected hstage]
        exact Driver.closeInstance_heard (h.letGo hstage) hnonneg hheard
      refine (hok.and (close_sane h (fun _ _ => hasks) hserver)).mono ?_
      rintro o c' ⟨rfl, hsane, -⟩
      exact ⟨rfl, hsane (by simp)⟩
    · have heasy : noreplyWait = false ∨ c.stage = .none := by
        have := h.built
        cases noreplyWait <;> cases hstage : c.stage <;> simp_all
      refine (close_sane h (fun hw hs => absurd ⟨hw, hs⟩ hwait) hserver).mono ?_
      rintro o c' ⟨hsane, -, hok⟩
      obtain rfl := hok heasy
      exact ⟨rfl, hsane (by simp)⟩
  unfold reconnect
  rw [wp_bind]
  refine hclosed.mono ?_
  rintro o c' ⟨rfl, hsane, hstage⟩
  exact connect_renews hsane hstage hopen hsends

/-- A `reconnect` that finds its connection broken makes no attempt. -/
theorem reconnect_broken (h : c.Sane proper) (hstage : c.stage = .connected)
    (hclosed : c.driver.io.isOpen = false) (hlt : c.driver.nextToken < 2 ^ 64) (hserver : P.Sends proper)
    (attempt : Except ConnectFailure (Transport P)) :
    wp (reconnect true attempt) (fun o c' => (∃ e, o = .error e ∧ e.Reql) ∧ c'.Sane proper ∧
      c'.stage = .none) c := by
  have hasks : c.Asks proper := by
    refine ⟨fun hopen => ?_, hlt⟩
    rw [hclosed] at hopen
    cases hopen
  have hraised : wp (close true) (fun o _ => ∃ e, o = .error e) c := by
    rw [close_connected hstage]
    exact Driver.closeInstance_broken (h.letGo hstage) (h.tidy hstage).bound hlt hclosed
  unfold reconnect
  rw [wp_bind]
  refine (hraised.and (close_sane h (fun _ _ => hasks) hserver)).mono ?_
  rintro o c' ⟨⟨e, rfl⟩, hsane, hreql, -⟩
  obtain ⟨hsane, hnone⟩ := hsane (by simp)
  exact ⟨⟨e, rfl, hreql e rfl⟩, hsane, hnone⟩

/-- `check_open` lets a call go on only where the socket is open. -/
theorem checkOpen_guards (h : c.Sane proper) {α : Type} {m : Action P α}
    (hm : c.stage = .connected → c.driver.io.isOpen = true → wp m (fun o c' => o ≠ .running →
      c'.Sane proper ∧ ∀ e, o = .error e → e.Reql) c) :
    wp (checkOpen >>= fun _ => m) (fun o c' => o ≠ .running → c'.Sane proper ∧
      ∀ e, o = .error e → e.Reql) c := by
  have hclosed : c.Sane proper ∧ ∀ e : Exn V, (.error (.driver "Connection is closed.") :
      Outcome (Exn V) α) = .error e → e.Reql := by
    refine ⟨h, ?_⟩
    rintro _ ⟨⟩
    trivial
  unfold checkOpen
  rw [wp_bind, wp_bind, wp_read, bindPost_ok]
  cases hstage : c.stage with
  | none => exact fun _ => hclosed
  | unconnected => exact absurd hstage h.built
  | connected =>
    dsimp only
    rw [onDriver, wp_zoom]
    unfold Driver.checkOpen
    rw [wp_bind, wp_read, bindPost_ok, wp_ite]
    constructor
    · exact fun hopen => hm hstage hopen
    · exact fun _ _ => hclosed

theorem checkOpen_sane (h : c.Sane proper) :
    wp checkOpen (fun o c' => o ≠ .running → c'.Sane proper ∧ ∀ e, o = .error e → e.Reql) c := by
  have hguards := checkOpen_guards h (m := pure ()) fun _ _ _ => ⟨h, nofun⟩
  rw [wp_bind] at hguards
  refine hguards.mono ?_
  rintro (_ | e | _) c' hpost
  · exact hpost
  · exact hpost
  · exact hpost

/-- A query, on whatever is there. -/
theorem perform_sane (h : c.Sane proper) {op : Op V} {m : Call P (Reply V)}
    (hop : perform (P := P) op = checkOpen >>= fun _ => onDriver m)
    (hm : c.stage = .connected → c.driver.io.isOpen = true → wp m (fun o d' => o ≠ .running →
      d'.Tidy proper c.former d'.nextToken d'.nextToken ∧ ∀ e, o = .error e → e.Reql) c.driver) :
    wp (perform op) (fun o c' => o ≠ .running → c'.Sane proper ∧ ∀ e, o = .error e → e.Reql) c := by
  rw [hop]
  refine checkOpen_guards h fun hstage hopen => ?_
  rw [onDriver, wp_zoom]
  refine (hm hstage hopen).mono ?_
  intro o d' hpost hback
  obtain ⟨htidy, hreql⟩ := hpost hback
  exact ⟨Sane.of_tidy hstage htidy, hreql⟩

/-! ### Every call -/

/-- A call of which nothing but `ReqlError`s is promised. -/
theorem lawful_of_reql {α : Type} {m : Action P α} {f : α → Result V} {u : Usage P}
    (hcall : u.call c = ((m c).1.map f, (m c).2))
    (hm : wp m (fun o c' => o ≠ .running → c'.Sane proper ∧ ∀ e, o = .error e → e.Reql) c) :
    (∀ e, (u.call c).1 = .error e → e.Reql) ∧
      ((u.call c).1 ≠ .running → (u.call c).2.Sane proper) := by
  rw [hcall]
  constructor
  · intro e he
    rw [Outcome.map_eq_error] at he
    exact (hm (by simp [he])).2 e he
  · intro hback
    rw [ne_eq, Outcome.map_eq_running] at hback
    exact (hm hback).1

/-- One call: what it promises, and what it leaves. -/
theorem usage_lawful (hserver : P.Sends proper) (h : c.Sane proper) {u : Usage P}
    (hu : Allowed proper c u) :
    Lawful u c ∧ ((u.call c).1 ≠ .running → (u.call c).2.Sane proper) := by
  have hquery : ∀ (u : Usage P) (op : Op V), u.call c =
      ((perform op c).1.map Result.reply, (perform op c).2) →
      wp (perform op) (fun o c' => o ≠ .running → c'.Sane proper ∧ ∀ e, o = .error e → e.Reql) c →
      (∀ e, (u.call c).1 = .error e → e.Reql) ∧
        ((u.call c).1 ≠ .running → (u.call c).2.Sane proper) :=
    fun u op hcall hm => lawful_of_reql hcall hm
  cases u with
  | isOpen =>
    have hcall : Usage.call .isOpen c = ((isOpen c).1.map Result.flag, (isOpen c).2) :=
      bind_pure_map ..
    obtain ⟨b, hb⟩ : ∃ b, isOpen c = (.ok b, c) := by
      cases hstage : c.stage with
      | none => exact ⟨_, isOpen_none hstage⟩
      | unconnected => exact absurd hstage h.built
      | connected => exact ⟨_, isOpen_connected hstage⟩
    rw [hb] at hcall
    refine ⟨⟨?_, ?_⟩, fun _ => ?_⟩
    · rw [hcall]
      exact ⟨b, rfl, rfl⟩
    · rw [hcall]
      exact nofun
    · rw [hcall]
      exact h
  | checkOpen =>
    have hcall : Usage.call .checkOpen c = ((checkOpen c).1.map fun _ => Result.none, (checkOpen c).2) :=
      bind_pure_map ..
    obtain ⟨hreql, hsane⟩ := lawful_of_reql hcall (checkOpen_sane h)
    exact ⟨⟨trivial, hreql⟩, hsane⟩
  | close wait =>
    have hcall : Usage.call (.close wait) c = ((close wait c).1.map fun _ => Result.none, (close wait c).2) :=
      bind_pure_map ..
    obtain ⟨hnone, hraised, -⟩ := close_sane h hu hserver
    have hclose : wp (close wait) (fun o c' => o ≠ .running → c'.Sane proper ∧
        ∀ e, o = .error e → e.Reql) c := fun hback => ⟨(hnone hback).1, hraised⟩
    obtain ⟨hreql, hsane⟩ := lawful_of_reql hcall hclose
    refine ⟨⟨?_, hreql⟩, hsane⟩
    intro hback
    rw [hcall] at hback ⊢
    rw [ne_eq, Outcome.map_eq_running] at hback
    exact isOpen_none (hnone hback).2
  | reconnect wait attempt =>
    have hcall : Usage.call (.reconnect wait attempt) c =
        ((reconnect wait attempt c).1.map fun _ => Result.none, (reconnect wait attempt c).2) :=
      bind_pure_map ..
    cases attempt with
    | ok io =>
      obtain ⟨hopen, hsends, hheard⟩ := hu
      obtain ⟨hok, hsane, hrenewed⟩ := reconnect_renews h hopen hsends hheard hserver
      rw [hok] at hcall
      refine ⟨⟨⟨?_, ?_⟩, ?_⟩, fun _ => ?_⟩
      · rw [hcall]
        exact nofun
      · rintro _ ⟨⟩
        rw [hcall]
        exact ⟨rfl, hrenewed⟩
      · rw [hcall]
        exact nofun
      · rw [hcall]
        exact hsane
    | error failure =>
      obtain ⟨rfl, hstage, hclosed, hlt⟩ := hu
      obtain ⟨⟨e, he, hreql⟩, hsane, hnone⟩ := reconnect_broken h hstage hclosed hlt hserver (.error failure)
      rw [he] at hcall
      refine ⟨⟨⟨?_, nofun⟩, ?_⟩, fun _ => ?_⟩
      · intro _ _
        rw [hcall]
        exact isOpen_none hnone
      · rw [hcall]
        rintro _ ⟨⟩
        exact hreql
      · rw [hcall]
        exact hsane
  | run term body jsonDecoder noreply =>
    have hperform : wp (perform (.run term body jsonDecoder noreply)) (fun o c' => o ≠ .running →
        c'.Sane proper ∧ ∀ e, o = .error e → e.Reql) c := by
      refine perform_sane h rfl fun hstage hopen => ?_
      obtain ⟨hasks, ⟨bytes, rfl, hlength⟩, hdecoder⟩ := hu hstage hopen
      exact Driver.start_civil hserver term hlength hdecoder noreply (h.tidy hstage) hasks.token
        (hasks.inStep hopen)
    obtain ⟨hreql, hsane⟩ := hquery (.run term body jsonDecoder noreply) _ (bind_pure_map ..) hperform
    exact ⟨⟨trivial, hreql⟩, hsane⟩
  | noreplyWait =>
    have hperform : wp (perform .noreplyWait) (fun o c' => o ≠ .running →
        c'.Sane proper ∧ ∀ e, o = .error e → e.Reql) c := by
      refine perform_sane h rfl fun hstage hopen => ?_
      have hasks := hu hstage hopen
      exact Driver.control_civil hserver _ (h.tidy hstage) hasks.token (hasks.inStep hopen)
    obtain ⟨hreql, hsane⟩ := hquery .noreplyWait _ (bind_pure_map ..) hperform
    exact ⟨⟨trivial, hreql⟩, hsane⟩
  | server =>
    have hperform : wp (perform .server) (fun o c' => o ≠ .running →
        c'.Sane proper ∧ ∀ e, o = .error e → e.Reql) c := by
      refine perform_sane h rfl fun hstage hopen => ?_
      have hasks := hu hstage hopen
      exact Driver.control_civil hserver _ (h.tidy hstage) hasks.token (hasks.inStep hopen)
    obtain ⟨hreql, hsane⟩ := hquery .server _ (bind_pure_map ..) hperform
    exact ⟨⟨trivial, hreql⟩, hsane⟩

end Sane

/-- The life of a connection. -/
theorem lifecycle_lawful (hserver : P.Sends proper) {c : Connection P}
    (hreach : (lifecycle proper).ReachedBy (Allowed proper) c) {u : Usage P} (hu : Allowed proper c u) :
    Lawful u c := by
  have hsane : c.Sane proper := by
    refine hreach.invariant (fun c (hinit : Unused proper c) => hinit.sane) ?_
    rintro c u c' - hsane hu ⟨hback, rfl⟩
    exact (usage_lawful hserver hsane hu).2 hback
  exact (usage_lawful hserver hsane hu).1

def unused : Connection listener where
  driver :=
    { io := { sending [] with isOpen := false }
      numbering := ⟨fun _ => [], nil_length_lt, [1]⟩
      nextToken := 0
      jsonDecoder := fun _ => .ok ⟨.waitComplete, [], none, none, none⟩
      cursorCache := ∅
      headerInProgress := none
      closing := false
      cursors := []
      handed := [] }
  stage := .none
  host := "localhost"
  port := 28015
  former := 0

theorem unused_unused : unused.Unused fun _ => True := by
  refine ⟨rfl, rfl, ?_, trivial⟩
  intro payload _
  refine ⟨_, rfl, ?_, ?_⟩
  · simp [Message.Explained]
  · simp

/-- The first connection attempt times out; `is_open` then goes by a socket that is not there. -/
theorem lifecycle_lawful_half_open :
    ∃ c : Connection listener, (lifecycle fun _ => True).Reachable c ∧ ¬Lawful .isOpen c := by
  refine ⟨((Usage.reconnect false (.error .timeout)).call unused).2, ?_, ?_⟩
  · exact .step (.init unused_unused) trivial ⟨by decide, rfl⟩
  · intro h
    exact h.reql .attribute rfl

/-- A connection with the answer to a `NOREPLY_WAIT` on its way. -/
def answered : Transport listener :=
  { sending [] with
    incoming := packHeader 0 0
    env := List.replicate 12 (.recv (.chunk 0)) }

/-- A second `reconnect`, which waits on the first instance. -/
theorem lifecycle_lawful_waited :
    Lawful (.reconnect true (.ok (sending [])))
      ((Usage.reconnect false (.ok answered)).call unused).2 := by
  have hserver : listener.Sends fun _ => True := fun _ a => a.elim
  have hallowed : Allowed (fun _ => True) unused (.reconnect false (.ok answered)) :=
    ⟨rfl, nofun, nofun⟩
  have hback : ((Usage.reconnect false (.ok answered)).call unused).1 ≠ .running := nofun
  have hreach : (lifecycle fun _ => True).ReachedBy (Allowed fun _ => True)
      ((Usage.reconnect false (.ok answered)).call unused).2 :=
    .step (.init unused_unused) hallowed ⟨hback, rfl⟩
  refine lifecycle_lawful hserver hreach
    ⟨rfl, nofun, fun _ _ => ⟨⟨fun _ => ?_, show (0 : ℤ) < 2 ^ 64 by norm_num⟩, ⟨rfl, nofun, ?_⟩⟩⟩
  · exact ⟨[⟨0, [], by decide, by decide, by decide⟩], ⟨rfl, nofun, rfl⟩, fun _ _ => trivial⟩
  · refine ⟨[], [], ⟨0, [], by decide, by decide, by decide⟩, _, by simp, rfl, rfl, rfl, ?_, by decide⟩
    refine ⟨rfl, rfl, ?_, nofun, rfl⟩
    intro e he
    rw [List.eq_of_mem_replicate he]
    trivial

end Connection
end RethinkDB.Net
