import RethinkDB.Handshake.Client

/-! Soundness of the handshake against an arbitrary server: it is complete only after the four
steps of one run, and the signature compared last is that run's own. -/
namespace RethinkDB.Handshake
open RethinkDB.Lib Prog

inductive Action where
  | reset
  | next (response : Option Bytes)

def Action.call (C : Client) : Action → Client.Step (Option Bytes)
  | .reset => do
    Client.reset
    return none
  | .next response => C.nextMessage response

/-- Responses with what `next_message` returned for them. -/
abbrev Log := List (Option Bytes × Option Bytes)

/-- The calls since the last `reset` that did not raise. -/
def Log.record (log : Log) : Action → Outcome HandshakeExn (Option Bytes) → Log
  | .reset, _ => []
  | .next response, .ok reply => log ++ [(response, reply)]
  | .next _, _ => log

def accepted (actions : List Action) (os : List (Outcome HandshakeExn (Option Bytes))) : Log :=
  (actions.zip os).foldl (fun log x => log.record x.1 x.2) []

namespace Client

variable (C : Client)

/-- A response that is a JSON object with a true `success`. -/
def Successful (response : Option Bytes) (json : Json) : Prop :=
  ∃ bytes text, response = some bytes ∧ utf8Decode bytes = some text ∧ C.jsonDecode text = .ok json ∧
    ∃ success, getField "success" json = .ok (some success) ∧ success.truthy = true

/-- A successful version response whose range contains 0. -/
def VersionResponse (response : Option Bytes) : Prop :=
  ∃ json min max, C.Successful response json ∧ item "min_protocol_version" json = .ok min ∧
    item "max_protocol_version" json = .ok max ∧ min.le (.int 0) = some true ∧
    Json.le (.int 0) max = some true

def Initial (nonce : Bytes) (message : Option Bytes) : Prop :=
  ∃ text, asciiDecode (utf8Encode "n,," ++ C.clientFirst nonce) = some text ∧
    message = some (C.initialMessage (.str text))

/-- A server-first message whose `r` starts with our nonce, with its salt and iteration count. -/
structure ServerFirst (nonce : Bytes) (response : Option Bytes) (message r salt : Bytes)
    (iterations : ℤ) : Prop where
  parsed : ∃ json pairs, C.Successful response json ∧ authenticationOf json = .ok (message, pairs) ∧
    attributeOf "r" pairs = .ok r ∧
    (∃ s, attributeOf "s" pairs = .ok s ∧ Base64.decode s = some salt) ∧
    ∃ i, attributeOf "i" pairs = .ok i ∧ parseInt i = some iterations
  starts : nonce <+: r

def ProofMessage (r saltedPassword message : Bytes) (reply : Option Bytes) : Prop :=
  ∃ proof text request,
    xorBytes (C.clientKey saltedPassword) (C.clientSignature saltedPassword message) = .ok proof ∧
    asciiDecode (withoutProof r ++ utf8Encode ",p=" ++ Base64.encode proof) = some text ∧
    latin1Encode (C.jsonEncode (.obj [("authentication", .str text)])) = some request ∧
    reply = some (request ++ [0])

/-- A successful final response whose `v` decodes to `signature`. -/
def FinalResponse (signature : Bytes) (response : Option Bytes) : Prop :=
  ∃ json message pairs v, C.Successful response json ∧
    authenticationOf json = .ok (message, pairs) ∧ attributeOf "v" pairs = .ok v ∧
    Base64.decode v = some signature

/-- A complete run: its own nonce, server-first message, salt and iteration count all enter
the signature of the final response. -/
def Complete (log : Log) : Prop :=
  ∃ nonce first version server reply final serverFirst r salt iterations saltedPassword,
    log = [(none, first), (version, some []), (server, reply), (final, none)] ∧
    C.Initial nonce first ∧ C.VersionResponse version ∧
    C.ServerFirst nonce server serverFirst r salt iterations ∧
    C.crypto.pbkdf2 C.password salt iterations = some saltedPassword ∧
    C.ProofMessage r saltedPassword (authMessage (C.clientFirst nonce) serverFirst r) reply ∧
    C.FinalResponse (C.serverSignature saltedPassword (authMessage (C.clientFirst nonce) serverFirst r))
      final

/-- How the fields of a handshake fit what it has accepted since the last `reset`. -/
def Stage (h : Session) (log : Log) : Prop :=
  match h.state with
  | 0 => log = []
  | 1 => ∃ nonce first, log = [(none, first)] ∧ C.Initial nonce first ∧
      h.randomNonce = some nonce ∧ h.firstClientMessage = some (C.clientFirst nonce)
  | 2 => ∃ nonce first version, log = [(none, first), (version, some [])] ∧ C.Initial nonce first ∧
      C.VersionResponse version ∧
      h.randomNonce = some nonce ∧ h.firstClientMessage = some (C.clientFirst nonce)
  | 3 => ∃ nonce first version server reply serverFirst r salt iterations saltedPassword,
      log = [(none, first), (version, some []), (server, reply)] ∧ C.Initial nonce first ∧
      C.VersionResponse version ∧ C.ServerFirst nonce server serverFirst r salt iterations ∧
      C.crypto.pbkdf2 C.password salt iterations = some saltedPassword ∧
      C.ProofMessage r saltedPassword (authMessage (C.clientFirst nonce) serverFirst r) reply ∧
      h.serverSignature =
        some (C.serverSignature saltedPassword (authMessage (C.clientFirst nonce) serverFirst r))
  | 4 => C.Complete log
  | _ => False

variable {C}

theorem raiseError_ne_ok (json json' : Json) : C.raiseError json ≠ .ok json' := by
  unfold raiseError
  simp only [bind_eq_ok, ne_eq, not_exists, not_and]
  intro _ _ _ _ _ _
  split_ifs <;> exact fail_ne_ok

theorem decodeJsonResponse_ok {text : Option String} {json : Json}
    (h : C.decodeJsonResponse text = .ok json) :
    ∃ t, text = some t ∧ C.jsonDecode t = .ok json ∧
      ∃ success, getField "success" json = .ok (some success) ∧ success.truthy = true := by
  unfold decodeJsonResponse at h
  simp only [bind_eq_ok, require_eq_ok] at h
  obtain ⟨t, ht, json', hjson, success, hsuccess, h⟩ := h
  split_ifs at h with htrue
  · cases h
    refine ⟨t, ht, ?_, ?_⟩
    · unfold decodeJson at hjson
      split at hjson
      · cases hjson
        assumption
      · cases hjson
    · cases success with
      | none => cases htrue
      | some success => exact ⟨success, hsuccess, htrue⟩
  · exact absurd h (raiseError_ne_ok json' json)

theorem successful_of_ok {response : Option Bytes} {text : Option String} {json : Json}
    (htext : decodeText response = .ok text) (h : C.decodeJsonResponse text = .ok json) :
    C.Successful response json := by
  obtain ⟨t, rfl, hjson, hsuccess⟩ := decodeJsonResponse_ok h
  cases response with
  | none => cases htext
  | some bytes =>
    unfold decodeText at htext
    simp only [bind_eq_ok, require_eq_ok] at htext
    obtain ⟨t', ht', heq⟩ := htext
    cases heq
    exact ⟨bytes, t, rfl, ht', hjson, hsuccess⟩

/-- What is to hold of a call of `next_message`. -/
def StepOutcome (C : Client) (h : Session) (log : Log) (response : Option Bytes)
    (o : Outcome HandshakeExn (Option Bytes)) (h' : Session) : Prop :=
  match o with
  | .ok reply => C.Stage h' (log ++ [(response, reply)]) ∧ (reply = none → h'.state = 4)
  | .error _ => h'.state = h.state ∧ C.Stage h' log
  | .running => False

variable {h : Session} {log : Log} {response : Option Bytes} {text : Option String}

theorem between_eq_true {x y z : Json} (h : between x y z = .ok true) :
    x.le y = some true ∧ y.le z = some true := by
  unfold between at h
  simp only [bind_eq_ok, require_eq_ok] at h
  obtain ⟨b, hb, h⟩ := h
  split_ifs at h with htrue
  · exact ⟨htrue ▸ hb, require_eq_ok.mp h⟩
  · cases h

theorem initConnection_stage (hstate : h.state = 0) (hstage : C.Stage h log)
    (htext : decodeText response = .ok text) :
    wp (some <$> C.initConnection text) (StepOutcome C h log response) h := by
  have hlog : log = [] := by simpa [Stage, hstate] using hstage
  have herr : ∀ h' : Session, h'.state = h.state → ∀ e, StepOutcome C h log response (.error e) h' :=
    fun h' hsame e => ⟨hsame, by simp [Stage, hsame, hstate, hlog]⟩
  rw [wp_map]
  unfold initConnection
  refine wp_raiseIf_bind ?_ fun hnone => ?_
  · intro _
    exact herr h rfl (.driver (.str "Unexpected response"))
  rw [wp_bind, wp_read, bindPost_ok, wp_bind, wp_modify, bindPost_ok]
  refine wp_ofExcept_bind ?_ fun authentication hauth => ?_
  · intro e
    refine herr _ ?_ e
    rfl
  rw [wp_bind, nextState, wp_modify, bindPost_ok, wp_pure, bindPost_ok, wp_pure]
  unfold decodeAscii at hauth
  simp only [bind_eq_ok, require_eq_ok] at hauth
  obtain ⟨t, ht, hauth⟩ := hauth
  cases hauth
  have hresponse : response = none := by
    cases response with
    | none => rfl
    | some bytes =>
      unfold decodeText at htext
      simp only [bind_eq_ok] at htext
      obtain ⟨t, -, heq⟩ := htext
      cases heq
      exact absurd (by simp) hnone
  refine ⟨?_, by simp⟩
  rw [hlog, hresponse, Stage, hstate]
  exact ⟨_, _, rfl, ⟨t, ht, rfl⟩, rfl, rfl⟩

theorem readResponse_stage (hstate : h.state = 1) (hstage : C.Stage h log)
    (htext : decodeText response = .ok text) :
    wp (some <$> C.readResponse text) (StepOutcome C h log response) h := by
  have herr : ∀ e, StepOutcome C h log response (.error e) h := fun e => ⟨rfl, hstage⟩
  rw [wp_map]
  unfold readResponse
  refine wp_ofExcept_bind herr fun json hjson => ?_
  refine wp_ofExcept_bind herr fun min hmin => ?_
  refine wp_ofExcept_bind herr fun max hmax => ?_
  refine wp_ofExcept_bind herr fun within hwithin => ?_
  refine wp_raiseIf_bind ?_ fun hin => ?_
  · intro _
    exact herr (.unsupportedVersion min max)
  rw [wp_bind, nextState, wp_modify, bindPost_ok, wp_pure, bindPost_ok, wp_pure]
  obtain rfl : within = true := by simpa using hin
  obtain ⟨hle, hge⟩ := between_eq_true hwithin
  rw [Stage, hstate] at hstage
  obtain ⟨nonce, first, rfl, hinitial, hnonce, hfirst⟩ := hstage
  refine ⟨?_, by simp⟩
  rw [Stage, hstate]
  exact ⟨nonce, first, response, rfl, hinitial,
    ⟨json, min, max, successful_of_ok htext hjson, hmin, hmax, hle, hge⟩, hnonce, hfirst⟩

theorem prepareAuthRequest_stage (hstate : h.state = 2) (hstage : C.Stage h log)
    (htext : decodeText response = .ok text) :
    wp (some <$> C.prepareAuthRequest text) (StepOutcome C h log response) h := by
  have herr : ∀ e, StepOutcome C h log response (.error e) h := fun e => ⟨rfl, hstage⟩
  rw [Stage, hstate] at hstage
  obtain ⟨nonce, first, version, rfl, hinitial, hversion, hnonce, hfirst⟩ := hstage
  rw [wp_map]
  unfold prepareAuthRequest
  refine wp_ofExcept_bind herr fun json hjson => ?_
  refine wp_ofExcept_bind herr fun ⟨serverFirst, pairs⟩ hauth => ?_
  refine wp_ofExcept_bind herr fun r hr => ?_
  rw [wp_bind, wp_read, bindPost_ok, hnonce]
  rw [wp_bind, require, wp_ofExcept_ok, bindPost_ok]
  refine wp_raiseIf_bind ?_ fun hstarting => ?_
  · intro _
    exact herr (.auth (.str "Invalid nonce from server") C.host C.port)
  refine wp_ofExcept_bind herr fun s hs => ?_
  refine wp_ofExcept_bind herr fun salt hsalt => ?_
  refine wp_ofExcept_bind herr fun i hi => ?_
  refine wp_ofExcept_bind herr fun iterations hiterations => ?_
  refine wp_ofExcept_bind herr fun saltedPassword hpassword => ?_
  rw [wp_bind, wp_read, bindPost_ok, hfirst]
  rw [wp_bind, require, wp_ofExcept_ok, bindPost_ok]
  rw [wp_bind, wp_modify, bindPost_ok]
  -- From here on the signature is set, but a call that raises still leaves the state at 2.
  have herr' : ∀ e, StepOutcome C h [(none, first), (version, some [])] response (.error e)
      { h with serverSignature := some (C.serverSignature saltedPassword
          (authMessage (C.clientFirst nonce) serverFirst r)) } := by
    intro e
    refine ⟨rfl, ?_⟩
    rw [Stage, hstate]
    exact ⟨nonce, first, version, rfl, hinitial, hversion, hnonce, hfirst⟩
  refine wp_ofExcept_bind herr' fun proof hproof => ?_
  refine wp_ofExcept_bind herr' fun authentication hauthentication => ?_
  refine wp_ofExcept_bind herr' fun request hrequest => ?_
  rw [wp_bind, nextState, wp_modify, bindPost_ok, wp_pure, bindPost_ok, wp_pure]
  unfold decodeAscii at hauthentication
  simp only [bind_eq_ok, require_eq_ok] at hauthentication hsalt hiterations hpassword hrequest
  obtain ⟨ascii, hascii, heq⟩ := hauthentication
  cases heq
  have hstarts : nonce <+: r := by simpa using hstarting
  refine ⟨?_, by simp⟩
  rw [Stage, hstate]
  exact ⟨nonce, first, version, response, _, serverFirst, r, salt, iterations, saltedPassword, rfl,
    hinitial, hversion,
    ⟨⟨json, pairs, successful_of_ok htext hjson, hauth, hr, ⟨s, hs, hsalt⟩, i, hi, hiterations⟩,
      hstarts⟩,
    hpassword, ⟨proof, ascii, request, hproof, hascii, hrequest, rfl⟩, rfl⟩

theorem readAuthResponse_stage (hstate : h.state = 3) (hstage : C.Stage h log)
    (htext : decodeText response = .ok text) :
    wp (C.readAuthResponse text) (bindPost (fun _ => pure none) (StepOutcome C h log response)) h := by
  have herr : ∀ e, StepOutcome C h log response (.error e) h := fun e => ⟨rfl, hstage⟩
  rw [Stage, hstate] at hstage
  obtain ⟨nonce, first, version, server, reply, serverFirst, r, salt, iterations, saltedPassword, rfl,
    hinitial, hversion, hserver, hpassword, hproof, hsignature⟩ := hstage
  unfold readAuthResponse
  refine wp_ofExcept_bind herr fun json hjson => ?_
  refine wp_ofExcept_bind herr fun ⟨message, pairs⟩ hauth => ?_
  refine wp_ofExcept_bind herr fun v hv => ?_
  refine wp_ofExcept_bind herr fun signature hdecode => ?_
  rw [wp_bind, wp_read, bindPost_ok, hsignature]
  rw [wp_bind, require, wp_ofExcept_ok, bindPost_ok]
  refine wp_raiseIf_bind ?_ fun hcompare => ?_
  · intro _
    exact herr (.auth (.str "Invalid server signature") C.host C.port)
  rw [nextState, wp_modify, bindPost_ok, wp_pure]
  rw [require_eq_ok] at hdecode
  obtain rfl := compareDigest_iff.mp (by simpa using hcompare)
  refine ⟨?_, by simp [hstate]⟩
  rw [Stage, hstate]
  exact ⟨nonce, first, version, server, reply, response, serverFirst, r, salt, iterations,
    saltedPassword, rfl, hinitial, hversion, hserver, hpassword, hproof,
    ⟨json, message, pairs, v, successful_of_ok htext hjson, hauth, hv, hdecode⟩⟩

theorem step_stage (hstage : C.Stage h log) (htext : decodeText response = .ok text) :
    wp (C.step text) (StepOutcome C h log response) h := by
  unfold step
  rw [wp_bind, wp_read, bindPost_ok]
  split
  · exact initConnection_stage ‹_› hstage htext
  · exact readResponse_stage ‹_› hstage htext
  · exact prepareAuthRequest_stage ‹_› hstage htext
  · rw [wp_bind]
    exact readAuthResponse_stage ‹_› hstage htext
  · exact ⟨rfl, hstage⟩

/-- One call of `next_message`. -/
theorem nextMessage_stage (hstage : C.Stage h log) (response : Option Bytes) :
    wp (C.nextMessage response) (StepOutcome C h log response) h := by
  unfold nextMessage
  refine wp_ofExcept_bind ?_ fun text htext => step_stage hstage htext
  intro e
  exact ⟨rfl, hstage⟩

/-! ### Runs -/

/-- A call leaves a stage behind, of the log as it is then. -/
theorem call_stage (hstage : C.Stage h log) (a : Action) :
    wp (a.call C) (fun o h' => o ≠ .running ∧ C.Stage h' (log.record a o)) h := by
  cases a with
  | reset => exact ⟨nofun, rfl⟩
  | next response =>
    refine (nextMessage_stage hstage response).mono ?_
    rintro (reply | e | _) h' hout
    · exact ⟨by simp, hout.1⟩
    · exact ⟨by simp, hout.2⟩
    · exact hout.elim

theorem session_stage (actions : List Action) (hstage : C.Stage h log) :
    let run := session (actions.map (Action.call C)) h
    C.Stage run.2 ((actions.zip run.1).foldl (fun log x => log.record x.1 x.2) log) := by
  induction actions generalizing h log with
  | nil => exact hstage
  | cons a actions ih =>
    have hcall := call_stage hstage a
    unfold wp at hcall
    simp only [List.map_cons, session]
    revert hcall
    rcases a.call C h with ⟨reply | e | _, h'⟩ <;> rintro ⟨hback, hstage'⟩
    · exact ih hstage'
    · exact ih hstage'
    · exact absurd rfl hback

/-- `next_message` ends the handshake only as the last call of a complete run since the last
`reset`; otherwise it returns a message, or it raises and leaves `_state` as it was. -/
theorem nextMessage_sound (C : Client) (entropy : ℕ → Bytes) (actions : List Action)
    (response : Option Bytes) :
    let run := session (actions.map (Action.call C)) (Session.new entropy)
    wp (C.nextMessage response) (fun o h =>
      o ≠ .running ∧ (∀ e, o = .error e → h.state = run.2.state) ∧
        (o = .ok none → C.Complete (accepted actions run.1 ++ [(response, none)]))) run.2 := by
  have hfresh : C.Stage (Session.new entropy) [] := rfl
  refine (nextMessage_stage (session_stage actions hfresh) response).mono ?_
  rintro (reply | e | _) h' hout
  · refine ⟨by simp, by simp, ?_⟩
    rintro ⟨⟩
    obtain ⟨hstage, hdone⟩ := hout
    rw [Stage, hdone rfl] at hstage
    exact hstage
  · exact ⟨by simp, fun _ _ => hout.1, by simp⟩
  · exact hout.elim

end Client
end RethinkDB.Handshake
