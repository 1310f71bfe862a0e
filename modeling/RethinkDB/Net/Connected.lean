import Mathlib.Data.List.TakeWhile
import RethinkDB.Net.Arrival
import RethinkDB.Net.Connect
import RethinkDB.Net.Demux

/-! A connection to a server after RFC 5802 is made, however its messages are cut on the way. -/
namespace RethinkDB.Net
open RethinkDB.Lib Prog Handshake

variable {V : Type} {P : Peer V}

/-- The server acts, bytes are delivered or a `recv` is interrupted. -/
def Event.Calm {A : Type} : Event A → Prop
  | .peer _ | .recv (.chunk _) | .recv .eintr => True
  | .recv _ => False

namespace Transport

/-- The schedule holds `bytes`, and is sure to deliver `n` of them. -/
structure Ready (t : Transport P) (bytes : Bytes) (n : ℕ) : Prop where
  isOpen : t.isOpen = true
  buffer : t.readBuffer = none
  sends : ∀ o ∈ t.sends, o.Soft
  calm : ∀ e ∈ t.env, e.Calm
  future : t.future = bytes
  supply : n ≤ t.supply

variable {t : Transport P} {b : UInt8} {bytes : Bytes} {n : ℕ}

/-- The induction is on the schedule. -/
theorem recvLoop_char (env : List (Event P.Act)) (t : Transport P)
    (h : Ready { t with env } (b :: bytes) (n + 1)) :
    ∃ t', recvLoop (V := V) 1 env [] t = (.ok [b], t') ∧ Ready t' bytes n ∧ t'.sent = t.sent ∧
      t'.env.length < env.length := by
  induction env generalizing t with
  | nil =>
    have hsupply := h.supply
    simp [supply, supplied] at hsupply
  | cons e env ih =>
    have hcalm : ∀ e ∈ env, e.Calm := fun e he => h.calm e (List.mem_cons_of_mem _ he)
    have hskip : ∀ u : Transport P, u.sent = t.sent → Ready { u with env } (b :: bytes) (n + 1) →
        ∃ t', recvLoop (V := V) 1 env [] u = (.ok [b], t') ∧ Ready t' bytes n ∧ t'.sent = t.sent ∧
          t'.env.length < (e :: env).length := by
      intro u hsent hu
      obtain ⟨t', heq, hready, hsame, hless⟩ := ih u hu
      exact ⟨t', heq, hready, hsame.trans hsent, Nat.lt_succ_of_lt hless⟩
    cases e with
    | peer a =>
      simp only [recvLoop, List.length_nil]
      refine hskip (t.peerAct a) rfl ⟨h.isOpen, h.buffer, h.sends, hcalm, ?_, ?_⟩
      · rw [← h.future]
        simp [future, actsOf, Peer.acts, peerAct]
      · have hsupply := h.supply
        simpa [supply, supplied, peerAct] using hsupply
    | recv o =>
      have ho : Event.Calm (.recv o) := h.calm _ List.mem_cons_self
      cases o with
      | eintr =>
        simp only [recvLoop, recv, List.length_nil]
        exact hskip t rfl ⟨h.isOpen, h.buffer, h.sends, hcalm, h.future, h.supply⟩
      | chunk k =>
        cases hin : t.incoming with
        | nil =>
          simp only [recvLoop, recv, hin, List.length_nil, if_true]
          refine hskip t rfl ⟨h.isOpen, h.buffer, h.sends, hcalm, h.future, ?_⟩
          have hsupply := h.supply
          simpa [supply, supplied, hin] using hsupply
        | cons c rest =>
          have hfuture := h.future
          have hsupply := h.supply
          simp only [future, actsOf, hin, List.cons_append, List.cons.injEq] at hfuture
          simp only [supply, supplied, hin, List.length_cons] at hsupply
          obtain ⟨rfl, hbytes⟩ := hfuture
          have htake : (c :: rest).take (min (k + 1) 1) = [c] := by
            rw [Nat.min_eq_right (by omega)]
            rfl
          simp only [recvLoop, recv, hin, List.length_nil, if_false, reduceCtorEq, Nat.sub_zero,
            htake, List.nil_append]
          rw [if_neg (by omega), recvLoop_done (by simp)]
          refine ⟨_, rfl, ⟨h.isOpen, h.buffer, h.sends, hcalm, hbytes, ?_⟩, rfl, Nat.lt_succ_self _⟩
          exact Nat.le_of_succ_le_succ hsupply
      | timeout | wouldBlock | timedOut | connReset | osError text | exception text | eof =>
        exact ho.elim

theorem recvall_ready (deadline : ℤ) (h : t.Ready (b :: bytes) (n + 1)) :
    ∃ t', recvall (V := V) 1 (some deadline) t = (.ok [b], t') ∧ t'.Ready bytes n ∧
      t'.sent = t.sent ∧
      t'.env.length < t.env.length := by
  rw [recvall_open (some deadline) h.isOpen, h.buffer]
  exact recvLoop_char t.env (t.started (some deadline))
    ⟨h.isOpen, h.buffer, h.sends, h.calm, h.future, h.supply⟩

theorem sendall_ready (data : Bytes) (h : t.Ready bytes n) :
    ∃ t', sendall (V := V) data t = (.ok (), t') ∧ t'.Ready bytes n ∧ t'.sent = t.sent ++ data := by
  unfold sendall
  by_cases hdata : data = []
  · rw [if_pos hdata, hdata]
    exact ⟨t, rfl, h, (List.append_nil _).symm⟩
  · rw [if_neg hdata, if_pos h.isOpen]
    obtain ⟨sends, sent, hsoft, heq⟩ := Driver.sendLoop_soft (V := V) t.sends h.sends data t
    obtain ⟨sends', hwhole⟩ := sendLoop_whole (V := V) t.sends data t (by rw [heq])
    have hsent : sent = t.sent ++ data := by
      have hboth := congrArg Transport.sent hwhole
      rw [heq] at hboth
      exact hboth
    exact ⟨_, heq, ⟨h.isOpen, h.buffer, hsoft, h.calm, h.future, h.supply⟩, hsent⟩

end Transport

namespace Greeting
variable {C : Client} {g : Greeting P} {n : ℕ} {rest : Bytes}

/-- The induction is on the message. -/
theorem readMessage_ready (deadline : ℤ) (message : Bytes) (hnull : 0 ∉ message) (n : ℕ)
    (response : Bytes) {t : Transport P} (h : t.Ready (message ++ 0 :: rest)
      (message.length + 1 + n))
    {k : ℕ} (hk : t.env.length < k) :
    ∃ t', readMessage (V := V) deadline k response t = (.ok (response ++ message), t') ∧
      t'.Ready rest n ∧ t'.sent = t.sent := by
  induction message generalizing response t k with
  | nil =>
    obtain ⟨k, rfl⟩ := Nat.exists_eq_succ_of_ne_zero (Nat.ne_zero_of_lt hk)
    rw [List.length_nil, Nat.zero_add, Nat.add_comm] at h
    obtain ⟨t', heq, hready, hsent, -⟩ := Transport.recvall_ready deadline h
    refine ⟨t', eq_of_wp ?_, hready, hsent⟩
    unfold readMessage
    rw [wp_bind, wp, heq, bindPost_ok, if_pos rfl, wp_pure, List.append_nil]
    exact ⟨rfl, rfl⟩
  | cons c message ih =>
    obtain ⟨k, rfl⟩ := Nat.exists_eq_succ_of_ne_zero (Nat.ne_zero_of_lt hk)
    rw [List.mem_cons, not_or] at hnull
    have hlength : (c :: message).length + 1 + n = message.length + 1 + n + 1 := by
      rw [List.length_cons]
      omega
    rw [List.cons_append, hlength] at h
    obtain ⟨t₁, hchar, hready₁, hsent₁, hless⟩ := Transport.recvall_ready deadline h
    obtain ⟨t', heq, hready, hsent⟩ := ih hnull.2 (response ++ [c]) hready₁ (k := k) (by omega)
    refine ⟨t', eq_of_wp ?_, hready, hsent.trans hsent₁⟩
    have hc : [c] ≠ [0] := fun hc => hnull.1 (List.cons_eq_cons.mp hc).1.symm
    unfold readMessage
    rw [wp_bind, wp, hchar, bindPost_ok, if_neg hc, wp, heq]
    simp

theorem readResponse_ready (deadline : ℤ) {message : Bytes} (hnull : 0 ∉ message) {t : Transport P}
    (h : t.Ready (message ++ 0 :: rest) (message.length + 1 + n)) :
    ∃ t', readResponse (V := V) deadline t = (.ok message, t') ∧ t'.Ready rest n ∧
      t'.sent = t.sent := by
  obtain ⟨t', heq, hready, hsent⟩ :=
    readMessage_ready (V := V) deadline message hnull n [] h (Nat.lt_succ_self _)
  refine ⟨t', eq_of_wp ?_, hready, hsent⟩
  unfold readResponse
  rw [wp_bind, wp_read, bindPost_ok, wp, heq]
  exact ⟨rfl, rfl⟩

theorem send_ready (request : Bytes) {bytes : Bytes} (h : g.io.Ready bytes n) :
    ∃ io, send (P := P) request g = (.ok (), { g with io }) ∧ io.Ready bytes n ∧
      io.sent = g.io.sent ++ request := by
  unfold send
  by_cases hrequest : request = []
  · rw [if_neg (not_not.mpr hrequest), hrequest]
    exact ⟨g.io, rfl, h, (List.append_nil _).symm⟩
  · rw [if_pos hrequest]
    obtain ⟨io, heq, hready, hsent⟩ := Transport.sendall_ready (V := V) request h
    refine ⟨io, eq_of_wp ?_, hready, hsent⟩
    rw [wp_socket, wp, heq]
    exact ⟨rfl, rfl⟩

/-- From `h` on the client's requests, each with the server's answer to it, lead to `h'`. -/
def Follows (C : Client) : Session → Option Bytes → List (Bytes × Bytes) → Session → Prop
  | h, response, [], h' => C.nextMessage response h = (.ok none, h')
  | h, response, (request, answer) :: turns, h' =>
    ∃ next, C.nextMessage response h = (.ok (some request), next) ∧ 0 ∉ answer ∧
      Follows C next (some answer) turns h'

def answered (turns : List (Bytes × Bytes)) : Bytes := turns.flatMap fun turn => turn.2 ++ [0]

def requested (turns : List (Bytes × Bytes)) : Bytes := turns.flatMap Prod.fst

theorem nextMessage_follows {response request : Option Bytes} {h' : Session}
    (hnext : C.nextMessage response g.session = (.ok request, h')) :
    nextMessage C response g = (.ok request, { g with
      session := h', exchanged := g.exchanged ++ [(response, request)] }) := by
  apply eq_of_wp
  unfold nextMessage
  rw [wp_bind, wp_mapError, wp_zoom, wp, hnext, Outcome.mapError, bindPost_ok, wp_bind, wp_modify,
    bindPost_ok, wp_pure]
  exact ⟨rfl, rfl⟩

/-- The induction is on the turns. -/
theorem greetLoop_follows (deadline : ℤ) (turns : List (Bytes × Bytes)) {response : Option Bytes}
    {h' : Session} (hturns : Follows C g.session response turns h')
    (hready : g.io.Ready (answered turns ++ rest) ((answered turns).length + n)) {k : ℕ}
    (hk : turns.length < k) :
    ∃ g', greetLoop C deadline k response g = (.ok (), g') ∧ g'.session = h' ∧ g'.io.Ready rest n ∧
      g'.io.sent = g.io.sent ++ requested turns := by
  induction turns generalizing g response k with
  | nil =>
    obtain ⟨k, rfl⟩ := Nat.exists_eq_succ_of_ne_zero (Nat.ne_zero_of_lt hk)
    refine ⟨{ g with session := h', exchanged := g.exchanged ++ [(response, none)] }, eq_of_wp ?_,
      rfl, by simpa [answered] using hready, by simp [requested]⟩
    unfold greetLoop
    rw [wp_bind, wp, nextMessage_follows hturns, bindPost_ok, wp_pure]
    exact ⟨rfl, rfl⟩
  | cons turn turns ih =>
    obtain ⟨request, answer⟩ := turn
    obtain ⟨k, rfl⟩ := Nat.exists_eq_succ_of_ne_zero (Nat.ne_zero_of_lt hk)
    obtain ⟨next, hnext, hnull, hrest⟩ := hturns
    have hwire : answered ((request, answer) :: turns) ++ rest =
        answer ++ 0 :: (answered turns ++ rest) := by
      simp [answered]
    have hlength : (answered ((request, answer) :: turns)).length + n =
        answer.length + 1 + ((answered turns).length + n) := by
      simp [answered]
      omega
    rw [hwire, hlength] at hready
    obtain ⟨io₁, hsend, hready₁, hsent₁⟩ := send_ready (g := { g with
      session := next, exchanged := g.exchanged ++ [(response, some request)] }) request hready
    obtain ⟨io₂, hread, hready₂, hsent₂⟩ := readResponse_ready (V := V) deadline hnull hready₁
    obtain ⟨g', hloop, hsession, hready', hsent⟩ := ih (g := { g with
      io := io₂, session := next, exchanged := g.exchanged ++ [(response, some request)] })
      hrest hready₂ (k := k) (by simpa using hk)
    refine ⟨g', eq_of_wp ?_, hsession, hready', ?_⟩
    · unfold greetLoop
      rw [wp_bind, wp, nextMessage_follows hnext, bindPost_ok]
      dsimp only
      rw [wp_bind, wp, hsend, bindPost_ok, wp_bind, wp_socket, wp, hread, Outcome.mapError,
        bindPost_ok, wp, hloop]
      exact ⟨rfl, rfl⟩
    · rw [hsent]
      dsimp only
      rw [hsent₂, hsent₁]
      simp [requested]

/-- What the server says has no null byte in it. -/
theorem null_not_mem_respond {S : Server} (hfrom : Codec S.jsonEncode C.jsonDecode)
    {fields : List (String × Json)} (hplain : Plain (("success", .bool true) :: fields)) :
    0 ∉ S.respond fields := by
  intro hzero
  have htake := takeWhile_null fun c hc => hfrom.escapes _ hplain c hc
  have hall : ∀ b ∈ S.respond fields, decide (b ≠ 0) = true := by
    intro b hb
    rw [Server.respond, ← htake] at hb
    exact List.mem_takeWhile_imp (p := fun b => decide (b ≠ 0)) hb
  simpa using hall 0 hzero

theorem null_not_mem_respondWith {S : Server} (hfrom : Codec S.jsonEncode C.jsonDecode)
    {authentication response : Bytes} (hascii : Ascii authentication)
    (h : S.respondWith authentication = some response) : 0 ∉ response := by
  obtain ⟨s, htext, -, hutf8, -, -⟩ := ascii_text hascii
  rw [Server.respondWith, hutf8] at h
  obtain rfl := Option.some.inj h
  exact null_not_mem_respond hfrom (plain_authentication htext)

theorem receiveFirst_response {S : Server} {first response : Bytes} {exchange : Exchange}
    (h : S.receiveFirst first = some (exchange, response)) :
    S.respondWith exchange.serverFirst = some response := by
  unfold Server.receiveFirst at h
  simp only [Option.bind_eq_bind, Option.bind_eq_some_iff, Option.pure_def] at h
  obtain ⟨authentication, -, h⟩ := h
  split at h
  · simp only [Option.bind_eq_some_iff] at h
    obtain ⟨escaped, -, unescaped, -, username, -, credentials, -, nonce, -, h⟩ := h
    split_ifs at h
    obtain ⟨reply, hreply, heq⟩ := Option.bind_eq_some_iff.mp h
    cases heq
    exact hreply
  · cases h

/-- With an RFC 5802 server the client's requests, each with the server's answer to it, lead to the
end of the handshake. -/
theorem server_follows {C : Client} {S : Server} {username : String} {crypto : Crypto}
    {jsonDecode : String → Except String Json}
    {jsonEncode : Json → String} {version : ℕ} {host : String} {port : ℕ} {password : String}
    (hC : Client.new crypto jsonDecode jsonEncode version host port username password = some C)
    (hcrypto : S.crypto = crypto) (hto : Codec jsonEncode S.jsonDecode)
    (hfrom : Codec S.jsonEncode jsonDecode)
    (hlength : ∀ key text, (crypto.hmac key text).length = 32)
    (husername : AsciiText username) (hsuffix : Value S.suffix) {salt : Bytes} {iterations : ℕ}
    (hiterations : 1 ≤ iterations) {saltedPassword : Bytes}
    (hpbkdf2 : crypto.pbkdf2 C.password salt iterations = some saltedPassword)
    (hstored : S.credentials username =
      some (Credentials.derive crypto salt iterations saltedPassword)) (entropy : ℕ → Bytes) :
    ∃ first exchange serverFirst request final h',
      S.receiveFirst first = some (exchange, serverFirst) ∧ exchange.username = username ∧
      S.receiveFinal exchange request = some final ∧
      Follows C (Session.new entropy) none
        [(first, S.versionResponse), ([], serverFirst), (request, final)] h' := by
  obtain ⟨rfl, rfl, rfl, hversion, huser⟩ := new_eq_some hC
  generalize hnonce : Base64.encode (entropy 0) = nonce
  have hown : Value nonce := hnonce ▸ value_base64 (entropy 0)
  obtain ⟨first, response, text, json, hfirst, hexchange, hdecode, hjson, hauth⟩ :=
    first_messages hto hfrom hversion huser husername hsuffix hstored entropy hnonce
  obtain ⟨request, proof, signature, final, hrequest, -, haccepted, hfinal, hdone⟩ :=
    final_messages username hcrypto hto hfrom hlength hown hsuffix hiterations hpbkdf2 rfl hdecode
      hjson hauth entropy
  have hversionResponse := nextMessage_version (C := C) (S := S) (h := ⟨some nonce,
    some (C.clientFirst nonce), none, 1, entropy, 1⟩) hfrom rfl
  have hversionNull : 0 ∉ S.versionResponse := null_not_mem_respond hfrom plain_version
  have hfirstNull : 0 ∉ response := by
    refine null_not_mem_respondWith hfrom ?_ (receiveFirst_response hexchange)
    rw [firstExchange, serverFirst_eq]
    exact ascii_message (attributes_serverFirst (hown.append hsuffix) salt iterations)
  have hfinalNull : 0 ∉ final :=
    null_not_mem_respondWith hfrom (ascii_message (attributes_serverFinal signature)) hfinal
  refine ⟨first, _, response, request, final,
    ⟨some nonce, some (C.clientFirst nonce), some signature, 4, entropy, 1⟩, hexchange, rfl,
    haccepted, ?_⟩
  exact ⟨_, hfirst, hversionNull, _, hversionResponse, hfirstNull, _, hrequest, hfinalNull, hdone⟩

/-- Whatever ASCII username, password, salt, number of iterations and nonces, and however the
server's messages are cut on the way: `SocketWrapper.__init__` returns, has sent just the two
messages the server accepts, and leaves what follows the third message for the queries. -/
theorem init_agrees {C : Client} {S : Server} {username : String} {crypto : Crypto}
    {jsonDecode : String → Except String Json}
    {jsonEncode : Json → String} {version : ℕ} {host : String} {port : ℕ} {password : String}
    (hC : Client.new crypto jsonDecode jsonEncode version host port username password = some C)
    (hcrypto : S.crypto = crypto) (hto : Codec jsonEncode S.jsonDecode)
    (hfrom : Codec S.jsonEncode jsonDecode)
    (hlength : ∀ key text, (crypto.hmac key text).length = 32)
    (husername : AsciiText username) (hsuffix : Value S.suffix) {salt : Bytes} {iterations : ℕ}
    (hiterations : 1 ≤ iterations) {saltedPassword : Bytes}
    (hpbkdf2 : crypto.pbkdf2 C.password salt iterations = some saltedPassword)
    (hstored : S.credentials username =
      some (Credentials.derive crypto salt iterations saltedPassword)) (entropy : ℕ → Bytes) :
    ∃ first exchange serverFirst request final,
      S.receiveFirst first = some (exchange, serverFirst) ∧ exchange.username = username ∧
      S.receiveFinal exchange request = some final ∧
      ∀ (deadline : ℤ) (rest : Bytes) (n : ℕ) (g : Greeting P),
        (Client.reset g.session).2 = Session.new entropy →
        g.io.Ready
          (answered [(first, S.versionResponse), ([], serverFirst), (request, final)] ++ rest)
          ((answered [(first, S.versionResponse), ([], serverFirst), (request, final)]).length + n)
            →
        ∃ g', init C deadline g = (.ok (), g') ∧ g'.io.Ready rest n ∧
          g'.io.sent = g.io.sent ++ first ++ request := by
  obtain ⟨first, exchange, serverFirst, request, final, h', hfirst, hname, hfinal, hfollows⟩ :=
    server_follows hC hcrypto hto hfrom hlength husername hsuffix hiterations hpbkdf2 hstored
      entropy
  refine ⟨first, exchange, serverFirst, request, final, hfirst, hname, hfinal, ?_⟩
  intro deadline rest n g hreset hready
  obtain ⟨g', hloop, -, hready', hsent⟩ := greetLoop_follows (g := { g with
    session := (Client.reset g.session).2, exchanged := [] }) deadline _ (hreset ▸ hfollows) hready
    (k := 5) (by simp)
  refine ⟨g', eq_of_wp ?_, hready', ?_⟩
  · unfold init
    rw [wp_mapError, wp_handle, wp_bind]
    unfold reset
    rw [wp_modify, bindPost_ok, wp, hloop]
    exact ⟨rfl, rfl⟩
  · rw [hsent]
    simp [requested]

theorem deliveries_replicate {A : Type} (n k : ℕ) :
    deliveries (A := A) (List.replicate n (.recv (.chunk k))) = n := by
  induction n with
  | zero => rfl
  | succ n ih => exact congrArg (· + 1) ih

theorem actsOf_replicate {A : Type} (n : ℕ) (o : RecvOutcome) :
    actsOf (A := A) (List.replicate n (.recv o)) = [] := by
  induction n with
  | zero => rfl
  | succ n ih => exact ih

theorem sampleGreeting_ready (bytes : Bytes) :
    (sampleGreeting bytes).io.Ready bytes bytes.length where
  isOpen := rfl
  buffer := rfl
  sends := by simp [sampleGreeting]
  calm := by
    intro e he
    rw [List.eq_of_mem_replicate he]
    exact trivial
  future := by
    rw [Transport.future, sampleGreeting, actsOf_replicate]
    exact List.append_nil _
  supply := by
    have hle := Transport.min_le_supplied (sampleGreeting bytes).io.env () bytes.length
    have hdeliveries : deliveries (sampleGreeting bytes).io.env = bytes.length :=
      deliveries_replicate _ _
    rw [hdeliveries, Nat.min_self] at hle
    exact hle

/-- The login of `sampleClient` at `sampleServer`. -/
theorem init_agrees_equals :
    ∃ first exchange serverFirst request final g',
      sampleServer.receiveFirst first = some (exchange, serverFirst) ∧ exchange.username = "a=,b" ∧
      sampleServer.receiveFinal exchange request = some final ∧
      init sampleClient 20 (sampleGreeting
        (answered [(first, sampleServer.versionResponse), ([], serverFirst), (request, final)])) =
          (.ok (), g') ∧
      g'.io.future = [] ∧ g'.io.sent = first ++ request := by
  have hlength : ∀ key text, (sampleCrypto.hmac key text).length = 32 := by
    intro key text
    simp [sampleCrypto, sampleHash]
    omega
  have hnew : Client.new sampleCrypto jsonDecode
    (jsonEncode fun _ => []) 0x34c2bdc3 "localhost" 28015
      "a=,b" "secret" = some sampleClient := rfl
  obtain ⟨first, exchange, serverFirst, request, final, hfirst, husername, hfinal, hrun⟩ :=
    init_agrees hnew (S := sampleServer) rfl (codec_json _) (codec_json _) hlength (by decide)
      ⟨by decide, by decide⟩ (by decide) rfl rfl fun _ => [255]
  obtain ⟨g', heq, hready, hsent⟩ := hrun 20 [] 0
    (sampleGreeting (answered [(first, sampleServer.versionResponse), ([], serverFirst),
      (request, final)]))
    rfl (by simpa using sampleGreeting_ready _)
  exact ⟨first, exchange, serverFirst, request, final, g', hfirst, husername, hfinal, heq,
    hready.future, hsent⟩

end Greeting
end RethinkDB.Net
