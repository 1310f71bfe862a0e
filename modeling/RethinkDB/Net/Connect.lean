import RethinkDB.Handshake.Agreement
import RethinkDB.Handshake.Soundness
import RethinkDB.Net.Position
import RethinkDB.Net.Tidy
import RethinkDB.Net.Wire

/-! `SocketWrapper.__init__` once its socket is connected: the handshake over the stream, in
messages that end at a null byte. -/
namespace RethinkDB.Net
open RethinkDB.Lib Prog Handshake

variable {V : Type} {P : Peer V}

/-- What raises inside the `try`: the socket, or the handshake. -/
inductive Interrupted (V : Type) where
  | socket (e : Exn V)
  | handshake (e : HandshakeExn)

/-- What `SocketWrapper.__init__` raises. `couldNotConnect` is the `ReqlDriverError` "Could not
connect to {host}:{port}. Error: {text}", `type` the `TypeError` of `str` on an error whose message
is no text, and `foreign` an interrupt from outside. -/
inductive ConnectExn where
  | auth (message : Json) (host : String) (port : ℕ)
  | timeout (host : String) (port : ℕ)
  | driver (text : String)
  | unsupportedVersion (min max : Json)
  | couldNotConnect
  | type
  | foreign (text : String)

/-- The wrapper, and the handshake object of its connection. `exchanged`, what `next_message` was
given and what it returned, is history. -/
structure Greeting (P : Peer V) where
  io : Transport P
  session : Session
  exchanged : Log

namespace Greeting

abbrev Greet (P : Peer V) (α : Type) := Prog (Greeting P) (Interrupted V) α

def socket {α : Type} (m : Prog (Transport P) (Exn V) α) : Greet P α :=
  mapError .socket (zoom io (fun io g => { g with io }) m)

def reset : Greet P Unit := modify fun g =>
  { g with session := (Client.reset g.session).2, exchanged := [] }

def nextMessage (C : Client) (response : Option Bytes) : Greet P (Option Bytes) := do
  let request ← mapError .handshake
    (zoom session (fun session g => { g with session }) (C.nextMessage response))
  modify fun g => { g with exchanged := g.exchanged ++ [(response, request)] }
  return request

/-- The inner loop: the response so far is completed up to a null byte. -/
def readMessage (deadline : ℤ) : ℕ → Bytes → Prog (Transport P) (Exn V) Bytes
  | 0, _ => stay
  | n + 1, response => do
    let char ← Transport.recvall 1 (some deadline)
    if char = [0] then return response else readMessage deadline n (response ++ char)

/-- The inner loop from an empty response. Every byte takes an event of the schedule, so the bound
is never what ends the loop. -/
def readResponse (deadline : ℤ) : Prog (Transport P) (Exn V) Bytes := do
  readMessage deadline (← read fun t => t.env.length + 1) []

/-- A request goes out, unless it is the `""` of the second step, which is `[]` here. -/
def send (request : Bytes) : Greet P Unit :=
  if request ≠ [] then socket (Transport.sendall request) else pure ()

def greetLoop (C : Client) (deadline : ℤ) : ℕ → Option Bytes → Greet P Unit
  | 0, _ => stay
  | n + 1, response => do
    match ← nextMessage C response with
    | none => return ()
    | some request => do
      send request
      let response ← socket (readResponse deadline)
      greetLoop C deadline n (some response)

def raised : Interrupted V → ConnectExn
  | .handshake (.auth message host port) => .auth message host port
  | .handshake (.driver (.str text)) => .driver (during text)
  | .handshake (.driver _) => .type
  | .handshake (.unsupportedVersion min max) => .unsupportedVersion min max
  | .socket (.timeout host port) => .timeout host port
  | .socket (.driver text) => .driver (during text)
  | .socket (.foreign text) => .foreign text
  | _ => .couldNotConnect
where
  during (text : String) : String :=
    (text.replace "receiving from" "during handshake with").replace
      "sending to" "during handshake with"

/-- `SocketWrapper.__init__` from `handshake.reset` on. A handshake is over, or raises, by its
fourth message. -/
def init (C : Client) (deadline : ℤ) : Prog (Greeting P) ConnectExn Unit :=
  mapError raised (handle
    (do
      reset
      greetLoop C deadline 5 none)
    fun e => do
      modify fun g => { g with io := g.io.close }
      throw e)

end Greeting

/-! ### The stream -/

namespace Transport

/-- From `t` to `t'` the bytes `got` were received and the bytes `put` were sent. -/
structure Exchanged (t t' : Transport P) (got put : Bytes) : Prop where
  received : ∃ as, t'.peer = (P.acts t.peer as).1 ∧
    got ++ t'.incoming = t.incoming ++ (P.acts t.peer as).2
  sent : t'.sent = t.sent ++ put
  isOpen : t'.isOpen = true
  buffer : t'.readBuffer = none
  env : t'.env.length ≤ t.env.length

theorem Exchanged.refl {t : Transport P} (hopen : t.isOpen = true) (hbuf : t.readBuffer = none) :
    Exchanged t t [] [] where
  received := ⟨[], rfl, by simp [Peer.acts]⟩
  sent := (List.append_nil _).symm
  isOpen := hopen
  buffer := hbuf
  env := le_refl _

theorem Exchanged.trans {t u v : Transport P} {got got' put put' : Bytes}
    (h : Exchanged t u got put)
    (h' : Exchanged u v got' put') : Exchanged t v (got ++ got') (put ++ put') where
  received := by
    obtain ⟨as, hpeer, hbytes⟩ := h.received
    obtain ⟨as', hpeer', hbytes'⟩ := h'.received
    refine ⟨as ++ as', ?_, ?_⟩
    · rw [hpeer', hpeer, Peer.acts_append]
    · rw [List.append_assoc, hbytes', ← List.append_assoc, hbytes, hpeer, Peer.acts_append,
        List.append_assoc]
  sent := by rw [h'.sent, h.sent, List.append_assoc]
  isOpen := h'.isOpen
  buffer := h'.buffer
  env := h'.env.trans h.env

theorem recv_length {t : Transport P} {n : ℕ} {o : RecvOutcome} {chunk : Bytes}
    (h : t.recv n o = some (.data chunk)) : chunk.length ≤ n := by
  cases o with
  | chunk k =>
    simp only [recv] at h
    split_ifs at h
    cases h
    simp
  | timeout =>
    unfold recv at h
    cases htime : t.timeout <;> simp [htime] at h
  | wouldBlock =>
    simp only [recv] at h
    split_ifs at h
    cases h
  | eof =>
    cases h
    exact Nat.zero_le n
  | eintr | timedOut | connReset | osError text | exception text => cases h

/-- A read of one byte in progress: `res` is empty or that byte. -/
structure Awaits (t₀ : Transport P) (env : List (Event P.Act)) (res : Bytes) (t : Transport P) :
    Prop where
  received : ∃ as, t.peer = (P.acts t₀.peer as).1 ∧
    res ++ t.incoming = t₀.incoming ++ (P.acts t₀.peer as).2
  sent : t.sent = t₀.sent
  isOpen : t.isOpen = true
  buffer : t.readBuffer = none
  length : res.length ≤ 1
  env : env.length + res.length ≤ t₀.env.length

theorem Awaits.goes {t₀ t t' : Transport P} {e : Event P.Act} 
    {env : List (Event P.Act)} {res res' : Bytes}
    (h : Awaits t₀ (e :: env) res t) (hmissing : res.length < 1)
    (hturn : t.turn 1 res e = .goes res' t') :
    Awaits t₀ env res' t' := by
  obtain rfl : res = [] := List.length_eq_zero_iff.mp (by omega)
  obtain ⟨as, hpeer, hbytes⟩ := h.received
  have henv := h.env
  simp only [List.length_cons, List.length_nil] at henv
  rcases turn_goes hturn with ⟨a, rfl, rfl, rfl⟩ | ⟨o, rfl, -, rfl, rfl⟩
    | ⟨o, chunk, rfl, hrecv, -, hres, rfl⟩
  · refine ⟨⟨as ++ [a], ?_, ?_⟩, h.sent, h.isOpen, h.buffer, by simp, by simp; omega⟩
    · rw [Peer.acts_append, ← hpeer]
      exact rfl
    · rw [Peer.acts_append, ← hpeer, ← List.append_assoc, ← hbytes]
      simp [peerAct, Peer.acts]
  · exact ⟨h.received, h.sent, h.isOpen, h.buffer, by simp, by simp; omega⟩
  · rw [List.nil_append] at hres hbytes
    subst hres
    have hlength := recv_length hrecv
    simp only [List.length_nil, Nat.sub_zero] at hlength
    refine ⟨⟨as, hpeer, ?_⟩, h.sent, h.isOpen, h.buffer, hlength, by omega⟩
    rw [← hbytes]
    exact recv_data hrecv

/-- One byte is read, or the schedule is used up, or the read raises. -/
theorem recvall_char (deadline : ℤ) {t : Transport P} (hopen : t.isOpen = true)
    (hbuf : t.readBuffer = none) :
    wp (recvall 1 (some deadline)) (fun o t' =>
      (∀ r, o = .ok r → ∃ b, r = [b] ∧ Exchanged t t' [b] [] ∧ t'.env.length < t.env.length) ∧
      (o = .running → t'.env = [])) t := by
  have hstart : Awaits t t.env [] (t.started (some deadline)) :=
    ⟨⟨[], rfl, by simp [Peer.acts, started, settimeout, remaining, now]⟩, rfl, hopen, hbuf, by simp,
      by simp⟩
  have hloop : wp (fun u => recvLoop 1 t.env [] u) (fun o t' =>
      (∀ r, o = .ok r → ∃ b, r = [b] ∧ Exchanged t t' [b] [] ∧ t'.env.length < t.env.length) ∧
      (o = .running → t'.env = [])) (t.started (some deadline)) := by
    apply recvLoop_rule (I := Awaits t) ?_ ?_ ?_ ?_ hstart
    · intro env res u h hdone
      obtain ⟨b, rfl⟩ : ∃ b, res = [b] := List.length_eq_one_iff.mp (le_antisymm h.length hdone)
      have henv := h.env
      simp only [List.length_singleton] at henv
      refine ⟨?_, by simp⟩
      rintro r ⟨⟩
      refine ⟨b, rfl, ⟨h.received, by rw [List.append_nil]; exact h.sent, h.isOpen, h.buffer, ?_⟩,
        ?_⟩
      · dsimp only
        omega
      · dsimp only
        omega
    · intro res u _ _
      exact ⟨by simp, fun _ => rfl⟩
    · intro e env res u res' u' h hmissing hturn
      exact h.goes hmissing hturn
    · intro e env res u ex u' _ _ _
      exact ⟨by simp, by simp⟩
  unfold wp at hloop ⊢
  rw [recvall_open (some deadline) hopen, hbuf]
  exact hloop

/-- The induction is on the schedule of the sends. -/
theorem sendLoop_whole (sends : List SendOutcome) (data : Bytes) (t : Transport P)
    (hok : (sendLoop sends data t).1 = .ok ()) :
    ∃ sends', (sendLoop sends data t).2 = { t with sends := sends', sent := t.sent ++ data } := by
  induction sends generalizing data t with
  | nil => exact ⟨[], rfl⟩
  | cons o sends ih =>
    by_cases hdata : data = []
    · subst hdata
      exact ⟨o :: sends, by simp [sendLoop]⟩
    · simp only [sendLoop, if_neg hdata] at hok ⊢
      cases o with
      | accept k =>
        obtain ⟨sends', hrest⟩ := ih _ _ hok
        refine ⟨sends', hrest.trans ?_⟩
        simp only [List.append_assoc, List.take_append_drop]
      | eintr => exact ih data t hok
      | connReset | osError text | exception text | interrupt accepted text => cases hok

theorem sendall_whole (data : Bytes) {t : Transport P} (hopen : t.isOpen = true)
    (hbuf : t.readBuffer = none) :
    wp (sendall data) (fun o t' => (o = .ok () → Exchanged t t' [] data) ∧ o ≠ .running) t := by
  unfold wp
  refine ⟨?_, (sendall_wire data t).1⟩
  unfold sendall
  by_cases hdata : data = []
  · rw [if_pos hdata, hdata]
    exact fun _ => .refl hopen hbuf
  · rw [if_neg hdata, if_pos hopen]
    intro hok
    obtain ⟨sends', hrest⟩ := sendLoop_whole t.sends data t hok
    rw [hrest]
    exact ⟨⟨[], rfl, by simp [Peer.acts]⟩, rfl, hopen, hbuf, le_refl _⟩

end Transport

namespace Greeting

/-- A whole message is read: what comes up to the first null byte, which is read as well. -/
theorem readMessage_whole (deadline : ℤ) (n : ℕ) (response : Bytes) {t : Transport P}
    (hopen : t.isOpen = true) (hbuf : t.readBuffer = none) (hn : t.env.length < n) :
    wp (readMessage deadline n response) (fun o t' =>
      (∀ r, o = .ok r → ∃ message, r = response ++ message ∧ 0 ∉ message ∧
        t.Exchanged t' (message ++ [0]) []) ∧
      (o = .running → t'.env = [])) t := by
  induction n generalizing response t with
  | zero => omega
  | succ n ih =>
    unfold readMessage
    rw [wp_bind]
    apply (Transport.recvall_char deadline hopen hbuf).mono
    intro o t' hout
    obtain ⟨hok, hrunning⟩ := hout
    cases o with
    | ok r =>
      obtain ⟨b, rfl, hone, hless⟩ := hok r rfl
      rw [bindPost_ok, wp_ite]
      refine ⟨?_, ?_⟩
      · intro hzero
        rw [hzero] at hone
        refine ⟨?_, by simp⟩
        rintro _ ⟨⟩
        exact ⟨[], by simp, by simp, hone⟩
      · intro hzero
        apply (ih (response ++ [b]) hone.isOpen hone.buffer (by omega)).mono
        rintro o t'' ⟨hrest, hblocked⟩
        refine ⟨?_, hblocked⟩
        intro r hr
        obtain ⟨message, rfl, hnull, hmore⟩ := hrest r hr
        have hb : b ≠ 0 := fun hb => hzero (by rw [hb])
        refine ⟨b :: message, by simp, ?_, ?_⟩
        · rw [List.mem_cons, not_or]
          exact ⟨hb.symm, hnull⟩
        · have hboth := hone.trans hmore
          simp only [List.append_nil] at hboth
          exact hboth
    | error e => exact ⟨by simp, by simp⟩
    | running =>
      rw [bindPost_running]
      exact ⟨by simp, fun _ => hrunning rfl⟩

theorem readResponse_whole (deadline : ℤ) {t : Transport P} (hopen : t.isOpen = true)
    (hbuf : t.readBuffer = none) :
    wp (readResponse deadline) (fun o t' =>
      (∀ r, o = .ok r → 0 ∉ r ∧ t.Exchanged t' (r ++ [0]) []) ∧
        (o = .running → t'.env = [])) t := by
  unfold readResponse
  rw [wp_bind, wp_read, bindPost_ok]
  apply (readMessage_whole deadline _ [] hopen hbuf (Nat.lt_succ_self _)).mono
  rintro o t' ⟨hok, hrunning⟩
  refine ⟨?_, hrunning⟩
  intro r hr
  obtain ⟨message, rfl, hnull, hmore⟩ := hok r hr
  exact ⟨hnull, hmore⟩

/-! ### The handshake -/

/-- The bytes of the responses, each with its null byte. -/
def heard (log : Log) : Bytes := log.flatMap fun x => (x.1.map (· ++ [0])).getD []

def said (log : Log) : Bytes := log.flatMap fun x => x.2.getD []

/-- No response has a null byte in it. -/
def Terminated (log : Log) : Prop := ∀ x ∈ log, ∀ r, x.1 = some r → 0 ∉ r

/-- Where the outer loop stands, with `response` to be handed over. -/
structure Greeted (C : Client) (t₀ : Transport P) (response : Option Bytes) (g : Greeting P) :
    Prop where
  stage : C.Stage g.session g.exchanged
  terminated : Terminated (g.exchanged ++ [(response, none)])
  exchanged : t₀.Exchanged g.io (heard (g.exchanged ++ [(response, none)])) (said g.exchanged)

theorem stage_length {C : Client} {h : Session} {log : Log} (hstage : C.Stage h log) :
    log.length = h.state ∧ h.state ≤ 4 := by
  unfold Client.Stage at hstage
  split at hstage
  · rename_i hstate
    rw [hstate, hstage]
    exact ⟨rfl, by omega⟩
  · rename_i hstate
    obtain ⟨nonce, first, rfl, -⟩ := hstage
    exact ⟨hstate.symm, by omega⟩
  · rename_i hstate
    obtain ⟨nonce, first, version, rfl, -⟩ := hstage
    exact ⟨hstate.symm, by omega⟩
  · rename_i hstate
    obtain ⟨nonce, first, version, server, reply, serverFirst, r, salt, iterations, salted, rfl,
      -⟩ := hstage
    exact ⟨hstate.symm, by omega⟩
  · rename_i hstate
    obtain ⟨nonce, first, version, server, reply, final, serverFirst, r, salt, iterations, salted,
      rfl, -⟩ := hstage
    exact ⟨hstate.symm, by omega⟩
  · exact hstage.elim

/-- One call of `next_message`, put on record. -/
theorem nextMessage_recorded (C : Client) (response : Option Bytes) {g : Greeting P}
    (hstage : C.Stage g.session g.exchanged) :
    wp (nextMessage C response) (fun o g' => o ≠ .running ∧ ∀ reply, o = .ok reply →
      g'.io = g.io ∧ g'.exchanged = g.exchanged ++ [(response, reply)] ∧
      C.Stage g'.session g'.exchanged ∧
        (reply = none → g'.session.state = 4)) g := by
  unfold nextMessage
  rw [wp_bind, wp_mapError, wp_zoom]
  apply (Client.nextMessage_stage hstage response).mono
  intro o h' hout
  cases o with
  | ok reply =>
    rw [Outcome.mapError, bindPost_ok, wp_bind, wp_modify, bindPost_ok, wp_pure]
    refine ⟨by simp, ?_⟩
    rintro _ ⟨⟩
    exact ⟨rfl, rfl, hout.1, hout.2⟩
  | error e => exact ⟨by simp, by simp⟩
  | running => exact hout.elim

theorem wp_socket {α : Type} (m : Prog (Transport P) (Exn V) α) {g : Greeting P}
    {Q : Outcome (Interrupted V) α → Greeting P → Prop} :
    wp (socket m) Q g ↔ wp m (fun o io => Q (o.mapError .socket) { g with io }) g.io := Iff.rfl

theorem send_whole (request : Bytes) {g : Greeting P} (hopen : g.io.isOpen = true)
    (hbuf : g.io.readBuffer = none) :
    wp (send request) (fun o g' => o ≠ .running ∧ (o = .ok () → g.io.Exchanged g'.io [] request ∧
      g'.session = g.session ∧ g'.exchanged = g.exchanged)) g := by
  unfold send
  split_ifs with hrequest
  · rw [wp_socket]
    apply (Transport.sendall_whole request hopen hbuf).mono
    intro o io hout
    obtain ⟨hok, hback⟩ := hout
    cases o with
    | ok => exact ⟨by simp [Outcome.mapError], fun _ => ⟨hok rfl, rfl, rfl⟩⟩
    | error e => exact ⟨by simp [Outcome.mapError], by simp [Outcome.mapError]⟩
    | running => exact absurd rfl hback
  · rw [wp_pure, not_not.mp hrequest]
    exact ⟨by simp, fun _ => ⟨.refl hopen hbuf, rfl, rfl⟩⟩

theorem Greeted.request {C : Client} {t₀ : Transport P} {response : Option Bytes}
    {g g' : Greeting P}
    (h : Greeted C t₀ response g) {request next : Bytes} {io : Transport P}
    (hexchanged : g'.exchanged = g.exchanged ++ [(response, some request)])
    (hstage : C.Stage g'.session g'.exchanged) (hio : g.io.Exchanged io [] request)
    (hnext : io.Exchanged g'.io (next ++ [0]) []) (hnull : 0 ∉ next) : Greeted C t₀
      (some next) g' where
  stage := hstage
  terminated := by
    rw [hexchanged]
    intro x hx r hr
    rw [List.mem_append, List.mem_singleton] at hx
    rcases hx with hx | rfl
    · rw [List.mem_append, List.mem_singleton] at hx
      rcases hx with hx | rfl
      · exact h.terminated x (List.mem_append_left _ hx) r hr
      · exact h.terminated (response, none) List.mem_concat_self r hr
    · cases hr
      exact hnull
  exchanged := by
    have hboth := (h.exchanged.trans hio).trans hnext
    have hheard : heard (g'.exchanged ++ [(some next, none)]) =
        heard (g.exchanged ++ [(response, none)]) ++ [] ++ (next ++ [0]) := by
      rw [hexchanged]
      simp [heard]
    have hsaid : said g'.exchanged = said g.exchanged ++ request ++ [] := by
      rw [hexchanged]
      simp [said]
    rw [hheard, hsaid]
    exact hboth

/-- The induction is on the turns; each puts one more response on record. -/
theorem greetLoop_sound (C : Client) (deadline : ℤ) (n : ℕ)
    (response : Option Bytes) {t₀ : Transport P}
    {g : Greeting P} (h : Greeted C t₀ response g) (hn : 5 ≤ n + g.exchanged.length) :
    wp (greetLoop C deadline n response) (fun o g' =>
      (o = .ok () → C.Complete g'.exchanged ∧ Terminated g'.exchanged ∧
        t₀.Exchanged g'.io (heard g'.exchanged) (said g'.exchanged)) ∧
      (o = .running → g'.io.env = [])) g := by
  induction n generalizing response g with
  | zero =>
    have hlength := stage_length h.stage
    omega
  | succ n ih =>
    unfold greetLoop
    rw [wp_bind]
    apply (nextMessage_recorded C response h.stage).mono
    intro o g₁ hout
    obtain ⟨hback, hreply⟩ := hout
    cases o with
    | ok reply =>
      obtain ⟨hio, hexchanged, hstage, hdone⟩ := hreply reply rfl
      rw [bindPost_ok]
      cases reply with
      | none =>
        rw [wp_pure]
        refine ⟨fun _ => ?_, by simp⟩
        have hcomplete : C.Complete g₁.exchanged := by
          unfold Client.Stage at hstage
          rw [hdone rfl] at hstage
          exact hstage
        have hsaid : said g₁.exchanged = said g.exchanged := by
          rw [hexchanged]
          simp [said]
        rw [hexchanged] at hcomplete ⊢
        rw [hexchanged] at hsaid
        rw [hio, hsaid]
        exact ⟨hcomplete, h.terminated, h.exchanged⟩
      | some request =>
        dsimp only
        have hopen : g₁.io.isOpen = true := by
          rw [hio]
          exact h.exchanged.isOpen
        have hbuf : g₁.io.readBuffer = none := by
          rw [hio]
          exact h.exchanged.buffer
        rw [wp_bind]
        apply (send_whole request hopen hbuf).mono
        intro o g₂ hout
        obtain ⟨hback₂, hsent⟩ := hout
        cases o with
        | ok =>
          obtain ⟨hput, hsession, hsame⟩ := hsent rfl
          rw [bindPost_ok, wp_bind, wp_socket]
          apply (readResponse_whole deadline hput.isOpen hput.buffer).mono
          intro o io hout
          obtain ⟨hwhole, hrunning⟩ := hout
          cases o with
          | ok next =>
            obtain ⟨hnull, hgot⟩ := hwhole next rfl
            rw [Outcome.mapError, bindPost_ok]
            have hexchanged₂ : g₂.exchanged = g.exchanged ++
              [(response, some request)] := hsame.trans hexchanged
            have hgreeted : Greeted C t₀ (some next) { g₂ with io } := by
              rw [hio] at hput
              refine h.request hexchanged₂ ?_ hput hgot hnull
              dsimp only
              rw [hsession, hsame]
              exact hstage
            refine ih (some next) hgreeted ?_
            dsimp only
            rw [hexchanged₂, List.length_append, List.length_singleton]
            omega
          | error e => exact ⟨by simp, by simp⟩
          | running => exact ⟨by simp, fun _ => hrunning rfl⟩
        | error e => exact ⟨by simp, by simp⟩
        | running => exact absurd rfl hback₂
    | error e => exact ⟨by simp, by simp⟩
    | running => exact absurd rfl hback

/-- `SocketWrapper.__init__` returns only at the end of a complete handshake of its own: its four
calls of `next_message` were given nothing and then the server's messages, which followed one
another on the stream, each up to its null byte; their requests are all that was sent, and no byte
behind the last null byte has been taken off the stream. It raises only with the wrapper closed. -/
theorem init_sound (C : Client) (deadline : ℤ) {g : Greeting P} (hopen : g.io.isOpen = true)
    (hbuf : g.io.readBuffer = none) :
    wp (init C deadline) (fun o g' =>
      (o = .ok () → C.Complete g'.exchanged ∧ Terminated g'.exchanged ∧
        g.io.Exchanged g'.io (heard g'.exchanged) (said g'.exchanged)) ∧
      (∀ e, o = .error e → g'.io.isOpen = false) ∧
      (o = .running → g'.io.env = [])) g := by
  unfold init
  rw [wp_mapError, wp_handle, wp_bind]
  unfold reset
  rw [wp_modify, bindPost_ok]
  have hstart : Greeted C g.io none
      { g with session := (Client.reset g.session).2, exchanged := [] } := by
    refine ⟨rfl, ?_, .refl hopen hbuf⟩
    intro x hx r hr
    obtain rfl := List.mem_singleton.mp hx
    cases hr
  apply (greetLoop_sound C deadline 5 none hstart (by simp)).mono
  intro o g' hout
  obtain ⟨hok, hrunning⟩ := hout
  cases o with
  | ok => exact ⟨fun _ => hok rfl, by simp [Outcome.mapError], by simp [Outcome.mapError]⟩
  | error e =>
    rw [handlePost_error, wp_bind, wp_modify, bindPost_ok, wp_throw]
    exact ⟨by simp [Outcome.mapError], fun _ _ => rfl, by simp [Outcome.mapError]⟩
  | running => exact ⟨by simp [Outcome.mapError], by simp [Outcome.mapError], fun _ => hrunning rfl⟩

/-- A new wrapper whose server has said `bytes` and says no more; they come byte by byte. -/
def sampleGreeting (bytes : Bytes) :
    Greeting ⟨Unit, Empty, fun s (_ : Query Unit) => s, fun s _ => (s, [])⟩ where
  io :=
    { host := "localhost", port := 28015, isOpen := true, readBuffer := none, timeout := none
      incoming := bytes, peer := (),
      env := List.replicate bytes.length (.recv (.chunk 0)), sends := []
      sent := [], clock := fun n => n, ticks := 0 }
  session := Session.new fun _ => [255]
  exchanged := []

/-- Whatever becomes of a login whose server says no more than this. -/
theorem init_sound_cut :
    wp (init sampleClient 20) (fun o g' =>
      (o = .ok () → sampleClient.Complete g'.exchanged ∧ Terminated g'.exchanged ∧
        (sampleGreeting sampleServer.versionResponse).io.Exchanged g'.io (heard g'.exchanged)
          (said g'.exchanged)) ∧
      (∀ e, o = .error e → g'.io.isOpen = false) ∧
      (o = .running → g'.io.env = [])) (sampleGreeting sampleServer.versionResponse) :=
  init_sound sampleClient 20 rfl rfl

end Greeting
end RethinkDB.Net
