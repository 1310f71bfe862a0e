import RethinkDB.Async.Instance
import RethinkDB.Net.Connected

/-! `connect` of the asyncio, Trio and Tornado drivers once the stream is there: the handshake over
messages that end at a null byte, and what each driver makes of a stream that ends early. -/
namespace RethinkDB.Async
open RethinkDB.Lib Prog Handshake Net.Greeting

/-- What a wait for the stream comes to: a byte or the end, an error of the connection, or the
timeout. -/
inductive Wait where
  | arrives | broken | timeout
  deriving Repr, DecidableEq

inductive Next where
  | byte (b : UInt8)
  | eof | broken | timeout
  deriving Repr, DecidableEq

/-- What raises inside the `try`. `lost` is the error of the connection as the stream raises it, and
`index` the `IndexError` of `data[0]`. -/
inductive Failure where
  | handshake (e : HandshakeExn)
  | timeout | lost | index

/-- What `connect` raises: `timeout` is the `ReqlTimeoutError`, `interrupted` the `ReqlDriverError`
"Connection interrupted during handshake with {host}:{port}. Error: {text}" and `couldNotConnect`
"Could not connect to {host}:{port}. Error: {text}". `lost` is the error of `wait_closed`. -/
inductive ConnectExn where
  | auth (message : Json) (host : String) (port : ℕ)
  | timeout | interrupted | couldNotConnect | lost

/-- A `ConnectionInstance` that connects. `incoming` is all that comes before the stream ends,
`wait` what each wait for it comes to, and `sends` whether it takes what is written. `exchanged`,
what `next_message` was given and what it returned, is history. -/
structure Opening where
  incoming : Bytes
  wait : ℕ → Wait
  waits : ℕ
  gone : Bool
  sends : ℕ → Bool
  puts : ℕ
  written : Bytes
  closed : Bool
  shut : Bool
  closeRaises : Bool
  session : Session
  exchanged : Log

namespace Opening

abbrev Connect (α : Type) := Prog Opening Failure α

/-- The next byte; a connection that has broken stays so. -/
def receive : Connect Next := fun s =>
  if s.gone then (.ok .broken, s)
  else match s.wait s.waits, s.incoming with
    | .arrives, b :: rest => (.ok (.byte b), { s with incoming := rest, waits := s.waits + 1 })
    | .arrives, [] => (.ok .eof, { s with waits := s.waits + 1 })
    | .broken, _ => (.ok .broken, { s with gone := true, waits := s.waits + 1 })
    | .timeout, _ => (.ok .timeout, { s with waits := s.waits + 1 })

/-- `_read_until` of asyncio and Trio, and Tornado's `read_until`, with the null byte. Every byte is
taken from those that come, so the bound is never what ends the loop. -/
def readUntil (driver : Driver) : ℕ → Bytes → Connect Bytes
  | 0, _ => stay
  | n + 1, buffer => do
    match ← receive with
    | .byte b =>
      if b = 0 then return buffer ++ [b] else readUntil driver n (buffer ++ [b])
    | .eof =>
      match driver with
      | .asyncio => return buffer
      | .trio => throw .index
      | .tornado => throw .lost
    | .broken =>
      match driver with
      | .trio => do
        modify fun s => { s with closed := true }
        return buffer
      | .asyncio | .tornado => throw .lost
    | .timeout => throw .timeout

/-- asyncio's `write` takes what it is given; Trio's `_send` notes a broken stream, and Tornado's
`write` raises on a closed one. -/
def write (driver : Driver) (request : Bytes) : Connect Unit := fun s =>
  match driver, s.sends s.puts with
  | .asyncio, _ | _, true =>
    (.ok (), { s with puts := s.puts + 1, written := s.written ++ request })
  | .trio, false => (.ok (), { s with puts := s.puts + 1, closed := true })
  | .tornado, false => (.error .lost, { s with puts := s.puts + 1 })

def send (driver : Driver) (request : Bytes) : Connect Unit :=
  if request ≠ [] then write driver request else pure ()

def nextMessage (C : Client) (response : Option Bytes) : Connect (Option Bytes) := do
  let request ← mapError .handshake
    (zoom session (fun session s => { s with session }) (C.nextMessage response))
  modify fun s => { s with exchanged := s.exchanged ++ [(response, request)] }
  return request

/-- `response[:-1]` goes to the next turn. -/
def connectLoop (C : Client) (driver : Driver) : ℕ → Option Bytes → Connect Unit
  | 0, _ => stay
  | n + 1, response => do
    match ← nextMessage C response with
    | none => return ()
    | some request => do
      send driver request
      let message ← readUntil driver ((← read fun s => s.incoming.length) + 1) []
      connectLoop C driver n (some message.dropLast)

/-- The handlers. Trio has no `trio.TooSlow`, so its timeout ends as an `AttributeError`. -/
def raised (driver : Driver) : Failure → ConnectExn
  | .handshake (.auth message host port) => .auth message host port
  | .timeout =>
    match driver with
    | .asyncio => .interrupted
    | .trio => .couldNotConnect
    | .tornado => .timeout
  | _ => if driver = .tornado then .interrupted else .couldNotConnect

def close (driver : Driver) (e : ConnectExn) : Prog Opening ConnectExn Unit := do
  modify fun s => { s with shut := true }
  if driver = .asyncio ∧ (← read closeRaises) = true then throw .lost else throw e

/-- `connect` from `handshake.reset` on. A handshake is over, or raises, by its fourth message. -/
def connect (C : Client) (driver : Driver) : Prog Opening ConnectExn Unit :=
  handle
    (mapError (raised driver) do
      modify fun s => { s with session := (Client.reset s.session).2, exchanged := [] }
      connectLoop C driver 5 none)
    (close driver)

/-! ### Messages -/

section Reading
variable {driver : Driver} {s : Opening} {taken buffer : Bytes} {n : ℕ}

/-- The stream has ended as the driver overlooks it. -/
def Over (driver : Driver) (s : Opening) : Prop :=
  driver = .asyncio ∧ s.incoming = [] ∨ driver = .trio ∧ s.gone = true ∧ s.closed = true

structure Read (s : Opening) (got : Bytes) (s' : Opening) : Prop where
  incoming : s.incoming = got ++ s'.incoming
  written : s'.written = s.written
  session : s'.session = s.session
  exchanged : s'.exchanged = s.exchanged
  closed : s.closed = true → s'.closed = true

theorem Read.trans {got got' : Bytes} {s' s'' : Opening} (h : Read s got s')
    (h' : Read s' got' s'') :
    Read s (got ++ got') s'' where
  incoming := by rw [h.incoming, h'.incoming, List.append_assoc]
  written := h'.written.trans h.written
  session := h'.session.trans h.session
  exchanged := h'.exchanged.trans h.exchanged
  closed hclosed := h'.closed (h.closed hclosed)

/-- What was received, and what it tells of the stream. -/
def Received (s : Opening) (next : Next) (s' : Opening) : Prop :=
  match next with
  | .byte b => Read s [b] s'
  | .eof => Read s [] s' ∧ s'.incoming = []
  | .broken => Read s [] s' ∧ s'.gone = true
  | .timeout => True

theorem receive_spec (s : Opening) :
    wp receive (fun o s' => ∃ next, o = .ok next ∧ Received s next s') s := by
  unfold wp receive
  by_cases hgone : s.gone = true
  · rw [if_pos hgone]
    exact ⟨.broken, rfl, ⟨rfl, rfl, rfl, rfl, id⟩, hgone⟩
  · rw [if_neg hgone]
    cases s.wait s.waits with
    | arrives =>
      cases hin : s.incoming with
      | nil => exact ⟨.eof, rfl, ⟨hin, rfl, rfl, rfl, id⟩, rfl⟩
      | cons b rest => exact ⟨.byte b, rfl, hin, rfl, rfl, rfl, id⟩
    | broken => exact ⟨.broken, rfl, ⟨rfl, rfl, rfl, rfl, id⟩, rfl⟩
    | timeout => exact ⟨.timeout, rfl, trivial⟩

/-- What `_read_until` returns: a message with its null byte, or all there was before the end. -/
theorem readUntil_spec (n : ℕ) (buffer : Bytes) (hn : s.incoming.length < n) :
    wp (readUntil driver n buffer) (fun o s' => o ≠ .running ∧ ∀ message, o = .ok message →
      ∃ got, message = buffer ++ got ∧ Read s got s' ∧
        ((∃ text, got = text ++ [0] ∧ 0 ∉ text) ∨ 0 ∉ got ∧ Over driver s')) s := by
  induction n generalizing buffer s with
  | zero => omega
  | succ n ih =>
    unfold readUntil
    rw [wp_bind]
    apply (receive_spec s).mono
    intro o s' hreceived
    obtain ⟨next, rfl, hnext⟩ := hreceived
    rw [bindPost_ok]
    cases next with
    | byte b =>
      dsimp only
      rw [wp_ite]
      constructor
      · intro hzero
        rw [wp_pure]
        refine ⟨by simp, fun message hmessage => ?_⟩
        cases hmessage
        exact ⟨[b], rfl, hnext, .inl ⟨[], by rw [hzero]; rfl, by simp⟩⟩
      · intro hzero
        have hless : s'.incoming.length < n := by
          have hlength := congrArg List.length hnext.incoming
          rw [List.length_append, List.length_singleton] at hlength
          omega
        apply (ih (buffer ++ [b]) hless).mono
        intro o s'' hrest
        refine ⟨hrest.1, fun message hmessage => ?_⟩
        obtain ⟨got, rfl, hread, hends⟩ := hrest.2 message hmessage
        refine ⟨b :: got, by simp, Read.trans hnext hread, ?_⟩
        have hb : (0 : UInt8) ≠ b := fun h => hzero h.symm
        rcases hends with ⟨text, rfl, htext⟩ | ⟨htext, hover⟩
        · exact .inl ⟨b :: text, rfl, by simp [hb, htext]⟩
        · exact .inr ⟨by simp [hb, htext], hover⟩
    | eof =>
      cases driver with
      | asyncio =>
        refine ⟨nofun, fun message hmessage => ?_⟩
        cases hmessage
        exact ⟨[], by simp, hnext.1, .inr ⟨by simp, .inl ⟨rfl, hnext.2⟩⟩⟩
      | trio => exact ⟨nofun, nofun⟩
      | tornado => exact ⟨nofun, nofun⟩
    | broken =>
      cases driver with
      | asyncio => exact ⟨nofun, nofun⟩
      | trio =>
        refine ⟨nofun, fun message hmessage => ?_⟩
        cases hmessage
        have hread := hnext.1
        exact ⟨[], by simp, ⟨hread.incoming, hread.written, hread.session, hread.exchanged,
          fun _ => rfl⟩, .inr ⟨by simp, .inr ⟨rfl, hnext.2, rfl⟩⟩⟩
      | tornado => exact ⟨nofun, nofun⟩
    | timeout => exact ⟨nofun, nofun⟩

/-- Nothing comes from a stream that is over. -/
theorem readUntil_over (hover : Over driver s) :
    wp (readUntil driver (n + 1) []) (fun o s' => o ≠ .running ∧ ∀ message, o = .ok message →
      message = [] ∧ Read s [] s') s := by
  unfold readUntil
  rw [wp_bind]
  unfold wp receive
  rcases hover with ⟨rfl, hincoming⟩ | ⟨rfl, hgone, hclosed⟩
  · by_cases hgone : s.gone = true
    · rw [if_pos hgone]
      exact ⟨nofun, nofun⟩
    · rw [if_neg hgone, hincoming]
      cases s.wait s.waits with
      | arrives =>
        refine ⟨nofun, fun message hmessage => ?_⟩
        cases hmessage
        exact ⟨rfl, hincoming, rfl, rfl, rfl, id⟩
      | broken => exact ⟨nofun, nofun⟩
      | timeout => exact ⟨nofun, nofun⟩
  · rw [if_pos hgone]
    refine ⟨nofun, fun message hmessage => ?_⟩
    cases hmessage
    exact ⟨rfl, rfl, rfl, rfl, rfl, fun _ => rfl⟩

structure Sent (driver : Driver) (s : Opening) (request : Bytes) (s' : Opening) : Prop where
  incoming : s'.incoming = s.incoming
  session : s'.session = s.session
  exchanged : s'.exchanged = s.exchanged
  gone : s'.gone = s.gone
  closed : s.closed = true → s'.closed = true
  written : s'.written = s.written ++ request ∨ driver = .trio ∧ s'.closed = true

/-- All of a request is written, unless Trio has noted a broken stream. -/
theorem send_spec (request : Bytes) :
    wp (send driver request) (fun o s' => o ≠ .running ∧ (o = .ok () → Sent driver s request s'))
      s := by
  unfold send
  split_ifs with hrequest
  · unfold wp write
    cases driver with
    | asyncio => exact ⟨nofun, fun _ => ⟨rfl, rfl, rfl, rfl, id, .inl rfl⟩⟩
    | trio =>
      cases s.sends s.puts with
      | true => exact ⟨nofun, fun _ => ⟨rfl, rfl, rfl, rfl, id, .inl rfl⟩⟩
      | false => exact ⟨nofun, fun _ => ⟨rfl, rfl, rfl, rfl, fun _ => rfl, .inr ⟨rfl, rfl⟩⟩⟩
    | tornado =>
      cases s.sends s.puts with
      | true => exact ⟨nofun, fun _ => ⟨rfl, rfl, rfl, rfl, id, .inl rfl⟩⟩
      | false => exact ⟨nofun, nofun⟩
  · rw [wp_pure, not_not.mp hrequest]
    exact ⟨nofun, fun _ => ⟨rfl, rfl, rfl, rfl, id, .inl (List.append_nil _).symm⟩⟩

end Reading

/-! ### The handshake -/

/-- No message is empty to the decoder of the handshake. -/
def Nonempty (C : Client) : Prop := ∀ json, C.jsonDecode "" ≠ .ok json

/-- How the next response came: after its null byte, cut short by the end of the stream and with its
last byte gone, or from a stream that had ended before. -/
inductive Pending (driver : Driver) (s₀ s : Opening) (response : Option Bytes) : Prop where
  | whole (h : s₀.incoming = heard (s.exchanged ++ [(response, none)]) ++ s.incoming)
      (hterminated : Terminated (s.exchanged ++ [(response, none)]))
  | cut (message : Bytes) (b : UInt8) (hresponse : response = some message)
      (h : s₀.incoming = heard s.exchanged ++ (message ++ [b]) ++ s.incoming)
      (hterminated : Terminated s.exchanged) (hover : Over driver s)
  | empty (h : response = some [])

/-- What is on the stream of what the handshake said; Trio only notes that a stream is broken. -/
def Written (driver : Driver) (s₀ s : Opening) : Prop :=
  s.written = s₀.written ++ said s.exchanged ∨ driver = .trio ∧ s.closed = true

structure Greeted (C : Client) (driver : Driver) (s₀ : Opening) (response : Option Bytes)
    (s : Opening) : Prop where
  stage : C.Stage s.session s.exchanged
  pending : Pending driver s₀ s response
  written : Written driver s₀ s

variable {C : Client} {driver : Driver} {s s' s₀ : Opening} {log : Log}

theorem Successful.ne_nil (hempty : Nonempty C) {response : Option Bytes} {json : Json}
    (h : C.Successful response json) : response ≠ some [] := by
  obtain ⟨bytes, text, rfl, htext, hjson, -⟩ := h
  intro hnil
  obtain rfl := Option.some_inj.mp hnil
  obtain rfl : "" = text := Option.some_inj.mp htext
  exact hempty json hjson

/-- A response that has been accepted is a message of its own. -/
theorem accepted_ne_nil (hempty : Nonempty C) {session : Session} {response reply : Option Bytes}
    (hstage : C.Stage session (log ++ [(response, reply)])) : response ≠ some [] := by
  unfold Client.Stage at hstage
  split at hstage
  · simp at hstage
  · obtain ⟨nonce, first, hlog, -⟩ := hstage
    have hlast := congrArg List.getLast? hlog
    simp only [List.getLast?_append, List.getLast?_singleton, Option.some_or, Option.some.injEq,
      Prod.mk.injEq] at hlast
    rw [hlast.1]
    nofun
  · obtain ⟨nonce, first, version, hlog, -, ⟨json, -, -, hsuccessful, -⟩, -⟩ := hstage
    have hlast := congrArg List.getLast? hlog
    simp at hlast
    rw [hlast.1]
    exact Successful.ne_nil hempty hsuccessful
  · obtain ⟨_, _, _, server, _, _, _, _, _, _, hlog, -, -, hserver, -⟩ := hstage
    obtain ⟨json, -, hsuccessful, -⟩ := hserver.parsed
    have hlast := congrArg List.getLast? hlog
    simp at hlast
    rw [hlast.1]
    exact Successful.ne_nil hempty hsuccessful
  · obtain ⟨_, _, _, _, _, final, _, _, _, _, _, hlog, -, -, -, -, -, hfinal⟩ := hstage
    obtain ⟨json, _, _, _, hsuccessful, -⟩ := hfinal
    have hlast := congrArg List.getLast? hlog
    simp at hlast
    rw [hlast.1]
    exact Successful.ne_nil hempty hsuccessful
  · exact hstage.elim

/-- A call of `next_message`, put on record. -/
structure Told (C : Client) (s : Opening) (response reply : Option Bytes) (s' : Opening) :
    Prop where
  exchanged : s'.exchanged = s.exchanged ++ [(response, reply)]
  stage : C.Stage s'.session s'.exchanged
  done : reply = none → s'.session.state = 4
  incoming : s'.incoming = s.incoming
  written : s'.written = s.written
  closed : s'.closed = s.closed
  gone : s'.gone = s.gone

theorem nextMessage_spec (response : Option Bytes) (hstage : C.Stage s.session s.exchanged) :
    wp (nextMessage C response) (fun o s' => o ≠ .running ∧ ∀ reply, o = .ok reply →
      Told C s response reply s') s := by
  unfold nextMessage
  rw [wp_bind, wp_mapError, wp_zoom]
  apply (Client.nextMessage_stage hstage response).mono
  intro o h' hout
  cases o with
  | ok reply =>
    rw [Outcome.mapError, bindPost_ok, wp_bind, wp_modify, bindPost_ok, wp_pure]
    constructor
    · simp
    · intro reply' hreply
      cases hreply
      exact ⟨rfl, hout.1, hout.2, rfl, rfl, rfl, rfl⟩
  | error e => exact ⟨by simp, by simp⟩
  | running => exact hout.elim

/-- The handshake is complete. Each of its messages ended at its null byte, but for the last one of
a stream that had ended: that one lost its last byte. -/
structure Opened (C : Client) (driver : Driver) (s₀ s : Opening) : Prop where
  complete : C.Complete s.exchanged
  incoming : (s₀.incoming = heard s.exchanged ++ s.incoming ∧ Terminated s.exchanged) ∨
    ∃ log message b, s.exchanged = log ++ [(some message, none)] ∧ Terminated log ∧
      s₀.incoming = heard log ++ (message ++ [b]) ++ s.incoming ∧ Over driver s
  written : Written driver s₀ s

theorem Over.told {response reply : Option Bytes} (h : Over driver s)
    (htold : Told C s response reply s') : Over driver s' := by
  unfold Over
  rw [htold.incoming, htold.gone, htold.closed]
  exact h

theorem Over.sent {request : Bytes} (h : Over driver s) (hsent : Sent driver s request s') :
    Over driver s' := by
  rcases h with ⟨hdriver, hincoming⟩ | ⟨hdriver, hgone, hclosed⟩
  · exact .inl ⟨hdriver, hsent.incoming.trans hincoming⟩
  · exact .inr ⟨hdriver, hsent.gone.trans hgone, hsent.closed hclosed⟩

theorem Greeted.opened (hempty : Nonempty C) {response : Option Bytes}
    (h : Greeted C driver s₀ response s) (htold : Told C s response none s') :
    Opened C driver s₀ s' where
  complete := by
    have hstage := htold.stage
    unfold Client.Stage at hstage
    rw [htold.done rfl] at hstage
    exact hstage
  incoming := by
    rw [htold.exchanged, htold.incoming]
    cases h.pending with
    | whole hincoming hterminated => exact .inl ⟨hincoming, hterminated⟩
    | cut message b hresponse hincoming hterminated hover =>
      rw [hresponse]
      exact .inr ⟨s.exchanged, message, b, rfl, hterminated, hincoming, hover.told htold⟩
    | empty hresponse =>
      exact absurd hresponse (accepted_ne_nil hempty (htold.exchanged ▸ htold.stage))
  written := by
    have hsaid : said s'.exchanged = said s.exchanged := by
      rw [htold.exchanged]
      simp [said]
    unfold Written
    rw [hsaid, htold.written, htold.closed]
    exact h.written

theorem Greeted.next {response : Option Bytes} {request got : Bytes} {s₁ s₂ : Opening}
    (h : Greeted C driver s₀ response s) (htold : Told C s response (some request) s₁)
    (hsent : Sent driver s₁ request s₂) (hread : Read s₂ got s')
    (hpending : Pending driver s₀ s' (some got.dropLast)) :
    Greeted C driver s₀ (some got.dropLast) s' where
  stage := by
    rw [hread.session, hread.exchanged, hsent.session, hsent.exchanged]
    exact htold.stage
  pending := hpending
  written := by
    have hsaid : said s'.exchanged = said s.exchanged ++ request := by
      rw [hread.exchanged, hsent.exchanged, htold.exchanged]
      simp [said]
    unfold Written
    rw [hsaid, hread.written]
    rcases hsent.written with hwritten | ⟨hdriver, hclosed⟩
    · rcases h.written with hbefore | ⟨hdriver, hclosed⟩
      · rw [hwritten, htold.written, hbefore, List.append_assoc]
        exact .inl rfl
      · exact .inr ⟨hdriver, hread.closed (hsent.closed (htold.closed.trans hclosed))⟩
    · exact .inr ⟨hdriver, hread.closed hclosed⟩

/-- What is pending once a message has been read behind a message that came whole. -/
theorem pending_next {response : Option Bytes} {request got : Bytes} {s₁ s₂ : Opening}
    (hincoming : s₀.incoming = heard (s.exchanged ++ [(response, none)]) ++ s.incoming)
    (hterminated : Terminated (s.exchanged ++ [(response, none)]))
    (htold : Told C s response (some request) s₁) (hsent : Sent driver s₁ request s₂)
    (hread : Read s₂ got s')
    (hends : (∃ text, got = text ++ [0] ∧ 0 ∉ text) ∨ 0 ∉ got ∧ Over driver s') :
    Pending driver s₀ s' (some got.dropLast) := by
  have hexchanged : s'.exchanged = s.exchanged ++ [(response, some request)] := by
    rw [hread.exchanged, hsent.exchanged, htold.exchanged]
  have hsame : heard s'.exchanged = heard (s.exchanged ++ [(response, none)]) := by
    rw [hexchanged]
    simp [heard]
  have hnull : Terminated s'.exchanged := by
    rw [hexchanged]
    intro x hx r hr
    rw [List.mem_append, List.mem_singleton] at hx
    rcases hx with hx | rfl
    · exact hterminated x (List.mem_append_left _ hx) r hr
    · exact hterminated (response, none) List.mem_concat_self r hr
  have hrest : s₀.incoming = heard s'.exchanged ++ got ++ s'.incoming := by
    rw [hincoming, hsame, List.append_assoc, ← hread.incoming, hsent.incoming, htold.incoming]
  rcases hends with ⟨text, rfl, htext⟩ | ⟨-, hover⟩
  · rw [List.dropLast_concat]
    refine .whole ?_ ?_
    · rw [hrest]
      simp [heard]
    · intro x hx r hr
      rw [List.mem_append, List.mem_singleton] at hx
      rcases hx with hx | rfl
      · exact hnull x hx r hr
      · cases hr
        exact htext
  · rcases List.eq_nil_or_concat got with rfl | ⟨message, b, rfl⟩
    · exact .empty rfl
    · rw [List.concat_eq_append] at hrest ⊢
      rw [List.dropLast_concat]
      exact .cut message b rfl hrest hnull hover

/-- What is read once a response has been cut short. -/
theorem readUntil_pending {response : Option Bytes} {request : Bytes} {s₁ s₂ : Opening}
    (hempty : Nonempty C) (h : Greeted C driver s₀ response s)
    (htold : Told C s response (some request) s₁) (hsent : Sent driver s₁ request s₂) :
    wp (readUntil driver (s₂.incoming.length + 1) []) (fun o s' => o ≠ .running ∧
      ∀ message, o = .ok message → Greeted C driver s₀ (some message.dropLast) s' ∧
        s'.exchanged = s.exchanged ++ [(response, some request)]) s₂ := by
  have hexchanged : s₂.exchanged = s.exchanged ++ [(response, some request)] :=
    hsent.exchanged.trans htold.exchanged
  cases h.pending with
  | whole hincoming hterminated =>
    apply (readUntil_spec _ [] (Nat.lt_succ_self _)).mono
    intro o s' hout
    constructor
    · exact hout.1
    · intro message hmessage
      obtain ⟨got, rfl, hread, hends⟩ := hout.2 message hmessage
      exact ⟨h.next htold hsent hread
        (pending_next hincoming hterminated htold hsent hread hends),
        hread.exchanged.trans hexchanged⟩
  | cut message b hresponse hincoming hterminated hover =>
    apply (readUntil_over ((hover.told htold).sent hsent)).mono
    intro o s' hout
    constructor
    · exact hout.1
    · intro message hmessage
      obtain ⟨rfl, hread⟩ := hout.2 message hmessage
      exact ⟨h.next htold hsent hread (.empty rfl), hread.exchanged.trans hexchanged⟩
  | empty hresponse =>
    exact absurd hresponse (accepted_ne_nil hempty (htold.exchanged ▸ htold.stage))

/-- The induction is on the turns; each puts one more response on record. -/
theorem connectLoop_sound (hempty : Nonempty C) (n : ℕ) (response : Option Bytes)
    (h : Greeted C driver s₀ response s) (hn : 5 ≤ n + s.exchanged.length) :
    wp (connectLoop C driver n response) (fun o s' => o ≠ .running ∧
      (o = .ok () → Opened C driver s₀ s')) s := by
  induction n generalizing response s with
  | zero =>
    have hlength := stage_length h.stage
    omega
  | succ n ih =>
    unfold connectLoop
    rw [wp_bind]
    apply (nextMessage_spec response h.stage).mono
    intro o s₁ hout
    cases o with
    | ok reply =>
      have htold := hout.2 reply rfl
      rw [bindPost_ok]
      cases reply with
      | none =>
        rw [wp_pure]
        exact ⟨nofun, fun _ => h.opened hempty htold⟩
      | some request =>
        dsimp only
        rw [wp_bind]
        apply (send_spec request).mono
        intro o s₂ hout₂
        cases o with
        | ok =>
          have hsent := hout₂.2 rfl
          rw [bindPost_ok, wp_bind, wp_read, bindPost_ok, wp_bind]
          apply (readUntil_pending hempty h htold hsent).mono
          intro o s₃ hout₃
          cases o with
          | ok message =>
            obtain ⟨hgreeted, hexchanged⟩ := hout₃.2 message rfl
            rw [bindPost_ok]
            apply ih _ hgreeted
            rw [hexchanged, List.length_append, List.length_singleton]
            omega
          | error e => exact ⟨nofun, nofun⟩
          | running => exact absurd rfl hout₃.1
        | error e => exact ⟨nofun, nofun⟩
        | running => exact absurd rfl hout₂.1
    | error e => exact ⟨nofun, nofun⟩
    | running => exact absurd rfl hout.1

/-- `connect` returns only at the end of a complete handshake of its own, of which Trio alone may
not have sent all. Its messages followed one another on the stream, each up to its null byte, but
for this: of a stream that ends, asyncio, and Trio where it breaks, take what is left for the last
message, without its last byte. It raises only with the stream shut. -/
theorem connect_sound (hempty : Nonempty C) (s : Opening) :
    wp (connect C driver) (fun o s' => o ≠ .running ∧ (o = .ok () → Opened C driver s s') ∧
      ∀ e, o = .error e → s'.shut = true) s := by
  unfold connect
  rw [wp_handle, wp_mapError, wp_bind, wp_modify, bindPost_ok]
  have hstart : Greeted C driver s none
      { s with session := (Client.reset s.session).2, exchanged := [] } := by
    refine ⟨rfl, .whole rfl ?_, .inl (List.append_nil _).symm⟩
    intro x hx r hr
    obtain rfl := List.mem_singleton.mp hx
    cases hr
  apply (connectLoop_sound hempty 5 none hstart (by simp)).mono
  intro o s' hout
  cases o with
  | ok => exact ⟨by simp, fun _ => hout.2 rfl, by simp⟩
  | error e =>
    rw [Outcome.mapError, handlePost_error]
    unfold close
    rw [wp_bind, wp_modify, bindPost_ok, wp_bind, wp_read, bindPost_ok, wp_ite]
    constructor
    · intro _
      rw [wp_throw]
      exact ⟨by simp, by simp, fun _ _ => rfl⟩
    · intro _
      rw [wp_throw]
      exact ⟨by simp, by simp, fun _ _ => rfl⟩
  | running => exact absurd rfl hout.1

/-- A new stream, on which `bytes` come before it ends. -/
def sampleOpening (bytes : Bytes) : Opening where
  incoming := bytes
  wait _ := .arrives
  waits := 0
  gone := false
  sends _ := true
  puts := 0
  written := []
  closed := false
  shut := false
  closeRaises := false
  session := Session.new fun _ => [255]
  exchanged := []

theorem nonempty_sample : Nonempty sampleClient := by
  intro json
  exact nofun

/-- Whatever becomes of a login whose server says no more than this. -/
theorem connect_sound_cut :
    wp (connect sampleClient .asyncio) (fun o s' => o ≠ .running ∧
      (o = .ok () →
        Opened sampleClient .asyncio (sampleOpening sampleServer.versionResponse) s') ∧
      ∀ e, o = .error e → s'.shut = true) (sampleOpening sampleServer.versionResponse) :=
  connect_sound nonempty_sample _

/-! ### A server that answers -/

/-- A stream on which `bytes` arrive, and which takes what is written. -/
structure Ready (s : Opening) (bytes : Bytes) : Prop where
  incoming : s.incoming = bytes
  waits : ∀ k, s.wait k = .arrives
  gone : s.gone = false
  sends : ∀ k, s.sends k = true

variable {bytes rest : Bytes}

theorem receive_ready {b : UInt8} (h : s.Ready (b :: bytes)) :
    ∃ s', receive s = (.ok (.byte b), s') ∧ s'.Ready bytes ∧ s'.session = s.session ∧
      s'.written = s.written := by
  refine ⟨{ s with incoming := bytes, waits := s.waits + 1 }, ?_, ⟨rfl, h.waits, h.gone, h.sends⟩,
    rfl, rfl⟩
  unfold receive
  rw [h.gone, if_neg Bool.false_ne_true, h.waits, h.incoming]

/-- The induction is on the message. -/
theorem readUntil_ready (driver : Driver) {message : Bytes} (hnull : 0 ∉ message) {n : ℕ}
    (hn : message.length < n)
    (buffer : Bytes) (h : s.Ready (message ++ 0 :: rest)) :
    ∃ s', readUntil driver n buffer s = (.ok (buffer ++ message ++ [0]), s') ∧ s'.Ready rest ∧
      s'.session = s.session ∧ s'.written = s.written := by
  induction message generalizing s n buffer with
  | nil =>
    obtain ⟨n, rfl⟩ := Nat.exists_eq_succ_of_ne_zero (Nat.ne_zero_of_lt hn)
    obtain ⟨s', hreceive, hready, hsession, hwritten⟩ := receive_ready h
    refine ⟨s', eq_of_wp ?_, hready, hsession, hwritten⟩
    unfold readUntil
    rw [wp_bind, wp, hreceive, bindPost_ok]
    dsimp only
    rw [if_pos rfl, wp_pure, List.append_nil]
    exact ⟨rfl, rfl⟩
  | cons c message ih =>
    obtain ⟨n, rfl⟩ := Nat.exists_eq_succ_of_ne_zero (Nat.ne_zero_of_lt hn)
    rw [List.mem_cons, not_or] at hnull
    obtain ⟨s₁, hreceive, hready₁, hsession₁, hwritten₁⟩ := receive_ready h
    obtain ⟨s', hread, hready, hsession, hwritten⟩ :=
      ih hnull.2 (Nat.lt_of_succ_lt_succ hn) (buffer ++ [c]) hready₁
    refine ⟨s', eq_of_wp ?_, hready, hsession.trans hsession₁, hwritten.trans hwritten₁⟩
    unfold readUntil
    rw [wp_bind, wp, hreceive, bindPost_ok]
    dsimp only
    rw [if_neg (Ne.symm hnull.1), wp, hread]
    exact ⟨by simp, rfl⟩

theorem send_ready (driver : Driver) (request : Bytes) (h : s.Ready bytes) :
    ∃ s', send driver request s = (.ok (), s') ∧ s'.Ready bytes ∧ s'.session = s.session ∧
      s'.written = s.written ++ request := by
  unfold send
  by_cases hrequest : request = []
  · rw [if_neg (not_not.mpr hrequest), hrequest]
    exact ⟨s, rfl, h, rfl, (List.append_nil _).symm⟩
  · rw [if_pos hrequest]
    refine ⟨{ s with puts := s.puts + 1, written := s.written ++ request }, ?_,
      ⟨h.incoming, h.waits, h.gone, h.sends⟩, rfl, rfl⟩
    unfold write
    rw [h.sends]
    cases driver <;> rfl

theorem nextMessage_follows {response request : Option Bytes} {h' : Session}
    (hnext : C.nextMessage response s.session = (.ok request, h')) :
    nextMessage C response s = (.ok request, { s with
      session := h', exchanged := s.exchanged ++ [(response, request)] }) := by
  apply eq_of_wp
  unfold nextMessage
  rw [wp_bind, wp_mapError, wp_zoom, wp, hnext, Outcome.mapError, bindPost_ok, wp_bind, wp_modify,
    bindPost_ok, wp_pure]
  exact ⟨rfl, rfl⟩

/-- The induction is on the turns. -/
theorem connectLoop_follows (driver : Driver)
    (turns : List (Bytes × Bytes)) {response : Option Bytes} {h' : Session}
    (hturns : Follows C s.session response turns h') (hready : s.Ready (answered turns ++ rest))
    {k : ℕ} (hk : turns.length < k) :
    ∃ s', connectLoop C driver k response s = (.ok (), s') ∧ s'.Ready rest ∧
      s'.written = s.written ++ requested turns := by
  induction turns generalizing s response k with
  | nil =>
    obtain ⟨k, rfl⟩ := Nat.exists_eq_succ_of_ne_zero (Nat.ne_zero_of_lt hk)
    refine ⟨{ s with session := h', exchanged := s.exchanged ++ [(response, none)] }, eq_of_wp ?_,
      ⟨hready.incoming, hready.waits, hready.gone, hready.sends⟩, by simp [requested]⟩
    unfold connectLoop
    rw [wp_bind, wp, nextMessage_follows hturns, bindPost_ok, wp_pure]
    exact ⟨rfl, rfl⟩
  | cons turn turns ih =>
    obtain ⟨request, answer⟩ := turn
    obtain ⟨k, rfl⟩ := Nat.exists_eq_succ_of_ne_zero (Nat.ne_zero_of_lt hk)
    obtain ⟨next, hnext, hnull, hrest⟩ := hturns
    have hwire : answered ((request, answer) :: turns) ++ rest =
        answer ++ 0 :: (answered turns ++ rest) := by
      simp [answered]
    rw [hwire] at hready
    have htold : Ready { s with
        session := next, exchanged := s.exchanged ++ [(response, some request)] } _ :=
      ⟨hready.incoming, hready.waits, hready.gone, hready.sends⟩
    obtain ⟨s₁, hsend, hready₁, hsession₁, hwritten₁⟩ := send_ready driver request htold
    have hroom : answer.length < s₁.incoming.length + 1 := by
      rw [hready₁.incoming, List.length_append]
      omega
    obtain ⟨s₂, hread, hready₂, hsession₂, hwritten₂⟩ :=
      readUntil_ready driver hnull hroom [] hready₁
    have hnow : s₂.session = next := hsession₂.trans hsession₁
    obtain ⟨s', hloop, hready', hwritten⟩ := ih (hnow ▸ hrest) hready₂ (k := k) (by simpa using hk)
    refine ⟨s', eq_of_wp ?_, hready', ?_⟩
    · unfold connectLoop
      rw [wp_bind, wp, nextMessage_follows hnext, bindPost_ok]
      dsimp only
      rw [wp_bind, wp, hsend, bindPost_ok, wp_bind, wp_read, bindPost_ok, wp_bind, wp, hread,
        bindPost_ok, List.nil_append, List.dropLast_concat, wp, hloop]
      exact ⟨rfl, rfl⟩
    · rw [hwritten, hwritten₂, hwritten₁]
      simp [requested]

/-- Whatever ASCII username, password, salt, number of iterations and nonces: `connect` of each
driver returns, has sent just the two messages the server accepts, and leaves what follows the third
message for the reader. -/
theorem connect_agrees {C : Client} {S : Server} {username : String} {crypto : Crypto}
    {jsonDecode : String → Except String Json} {jsonEncode : Json → String} {version : ℕ}
    {host : String} {port : ℕ} {password : String}
    (hC : Client.new crypto jsonDecode jsonEncode version host port username password = some C)
    (hcrypto : S.crypto = crypto) (hto : Codec jsonEncode S.jsonDecode)
    (hfrom : Codec S.jsonEncode jsonDecode)
    (hlength : ∀ key text, (crypto.hmac key text).length = 32) (husername : AsciiText username)
    (hsuffix : Value S.suffix) {salt : Bytes} {iterations : ℕ} (hiterations : 1 ≤ iterations)
    {saltedPassword : Bytes}
    (hpbkdf2 : crypto.pbkdf2 C.password salt iterations = some saltedPassword)
    (hstored : S.credentials username =
      some (Credentials.derive crypto salt iterations saltedPassword)) (entropy : ℕ → Bytes) :
    ∃ first exchange serverFirst request final,
      S.receiveFirst first = some (exchange, serverFirst) ∧ exchange.username = username ∧
      S.receiveFinal exchange request = some final ∧
      ∀ (driver : Driver) (rest : Bytes) (s : Opening),
        (Client.reset s.session).2 = Session.new entropy →
        s.Ready
          (answered [(first, S.versionResponse), ([], serverFirst), (request, final)] ++ rest) →
        ∃ s', connect C driver s = (.ok (), s') ∧ s'.Ready rest ∧
          s'.written = s.written ++ first ++ request := by
  obtain ⟨first, exchange, serverFirst, request, final, h', hfirst, hname, hfinal, hfollows⟩ :=
    server_follows hC hcrypto hto hfrom hlength husername hsuffix hiterations hpbkdf2 hstored
      entropy
  refine ⟨first, exchange, serverFirst, request, final, hfirst, hname, hfinal, ?_⟩
  intro driver rest s hreset hready
  have hstart : Ready { s with session := (Client.reset s.session).2, exchanged := [] } _ :=
    ⟨hready.incoming, hready.waits, hready.gone, hready.sends⟩
  obtain ⟨s', hloop, hready', hwritten⟩ :=
    connectLoop_follows driver _ (hreset ▸ hfollows) hstart (k := 5) (by simp)
  refine ⟨s', eq_of_wp ?_, hready', ?_⟩
  · unfold connect
    rw [wp_handle, wp_mapError, wp_bind, wp_modify, bindPost_ok, wp, hloop]
    exact ⟨rfl, rfl⟩
  · rw [hwritten]
    simp [requested]

/-- The login of `sampleClient` at `sampleServer`. -/
theorem connect_agrees_equals :
    ∃ first exchange serverFirst request final s',
      sampleServer.receiveFirst first = some (exchange, serverFirst) ∧ exchange.username = "a=,b" ∧
      sampleServer.receiveFinal exchange request = some final ∧
      connect sampleClient .trio (sampleOpening
        (answered [(first, sampleServer.versionResponse), ([], serverFirst), (request, final)])) =
          (.ok (), s') ∧
      s'.incoming = [] ∧ s'.written = first ++ request := by
  have hlength : ∀ key text, (sampleCrypto.hmac key text).length = 32 := by
    intro key text
    simp [sampleCrypto, sampleHash]
    omega
  have hnew : Client.new sampleCrypto jsonDecode (jsonEncode fun _ => []) 0x34c2bdc3 "localhost"
      28015 "a=,b" "secret" = some sampleClient := rfl
  obtain ⟨first, exchange, serverFirst, request, final, hfirst, husername, hfinal, hrun⟩ :=
    connect_agrees hnew (S := sampleServer) rfl (codec_json _) (codec_json _) hlength (by decide)
      ⟨by decide, by decide⟩ (by decide) rfl rfl fun _ => [255]
  obtain ⟨s', heq, hready, hwritten⟩ := hrun .trio [] (sampleOpening
    (answered [(first, sampleServer.versionResponse), ([], serverFirst), (request, final)])) rfl
    ⟨(List.append_nil _).symm, fun _ => rfl, rfl, fun _ => rfl⟩
  exact ⟨first, exchange, serverFirst, request, final, s', hfirst, husername, hfinal, heq,
    hready.incoming, hwritten⟩

end Opening
end RethinkDB.Async
