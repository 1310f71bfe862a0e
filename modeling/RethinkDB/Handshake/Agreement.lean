import RethinkDB.Handshake.Texts

/-! Agreement of the client with a server after RFC 5802 that stores the keys of its password. -/
namespace RethinkDB.Handshake
open RethinkDB.Lib Prog

theorem xor_cancel {proof signature : Bytes} (h : proof.length ≤ signature.length) :
    List.zipWith (· ^^^ ·) (List.zipWith (· ^^^ ·) proof signature) signature = proof := by
  induction proof generalizing signature with
  | nil => simp
  | cons b proof ih =>
    cases signature with
    | nil => cases h
    | cons c signature =>
      rw [List.zipWith_cons_cons, List.zipWith_cons_cons, ih (by simpa using h), UInt8.xor_assoc,
        UInt8.xor_self, UInt8.xor_zero]

section Run
variable {C : Client} {S : Server} {username : String} {credentials : Credentials} {nonce : Bytes}

/-- What the server makes of the client's first message. -/
def firstExchange (C : Client) (S : Server) (username : String) (credentials : Credentials)
    (nonce : Bytes) : Exchange where
  username := username
  credentials := credentials
  clientFirst := C.clientFirst nonce
  nonce := nonce ++ S.suffix
  serverFirst := Server.serverFirst credentials (nonce ++ S.suffix)

theorem plain_initial {s : String} (h : AsciiText s) :
    Plain [("protocol_version", .int 0), ("authentication_method", .str "SCRAM-SHA-256"),
      ("authentication", .str s)] := by
  refine ⟨by simp, ?_⟩
  simp only [List.forall_mem_cons]
  exact ⟨plainField_int (by decide) 0, plainField_str (by decide) (by decide),
    plainField_str (by decide) h, by simp⟩

/-- The server reads the username out of its escapes. -/
theorem receiveFirst_initialMessage (hto : Codec C.jsonEncode S.jsonDecode)
    (hversion : C.version.length = 4) (husername : C.username = escapeUsername username)
    (hvalue : Value (escapeUsername username)) (hnonce : Value nonce)
    (hstored : S.credentials username = some credentials) {s : String} (hs : AsciiText s)
    (hbytes : utf8Encode s = utf8Encode "n,," ++ C.clientFirst nonce) {response : Bytes}
    (hresponse : S.respondWith (Server.serverFirst credentials (nonce ++ S.suffix)) = some response) :
    S.receiveFirst (C.initialMessage (.str s)) =
      some (firstExchange C S username credentials nonce, response) := by
  have hread : S.authentication ((C.initialMessage (.str s)).drop 4) =
      some (utf8Encode "n,," ++ C.clientFirst nonce) := by
    rw [Client.initialMessage, List.append_assoc, List.drop_left' hversion,
      authentication_jsonEncode hto (plain_initial hs) rfl, hbytes]
  have hattributes : Attributes [(110, C.username), (114, nonce)] :=
    attributes_clientFirst (husername ▸ hvalue) hnonce
  have hflag : ∀ bs, utf8Encode "n,," ++ bs = [110] ++ comma :: ([] ++ comma :: bs) := by
    have hliteral : utf8Encode "n,," = [110, 44, 44] := by decide
    intro bs
    rw [hliteral]
    rfl
  have hsplit : (utf8Encode "n,," ++ C.clientFirst nonce).splitOn comma =
      [[110], [], 110 :: equals :: C.username, 114 :: equals :: nonce] := by
    rw [clientFirst_eq, hflag, List.splitOn_append_cons_self_of_not_mem (by decide),
      List.splitOn_append_cons_self_of_not_mem (by decide), splitOn_message hattributes]
    rfl
  have hn : attributeValue 110 (110 :: equals :: C.username) = some (escapeUsername username) := by
    rw [husername]
    rfl
  have hr : attributeValue 114 (114 :: equals :: nonce) = some nonce := rfl
  have hliteral : [110] = utf8Encode "n" := by decide
  have hbare : 110 :: equals :: C.username ++ comma :: 114 :: equals :: nonce = C.clientFirst nonce := by
    rw [clientFirst_eq]
    rfl
  unfold Server.receiveFirst
  simp only [hread, Option.bind_eq_bind, Option.bind_some, hsplit, hn, unescape_escape,
    utf8Decode_encode, hstored, hr, hliteral, and_self, if_true, hbare, hresponse]
  rfl

/-- The server recovers `ClientKey` from the proof. -/
theorem receiveFinal_clientFinal (hto : Codec C.jsonEncode S.jsonDecode)
    (hcrypto : S.crypto = C.crypto) (hnonce : Value nonce) (hsuffix : Value S.suffix)
    {saltedPassword : Bytes}
    (hstored : credentials.storedKey = C.crypto.sha256 (C.clientKey saltedPassword))
    (hserver : credentials.serverKey = C.crypto.hmac saltedPassword (utf8Encode "Server Key"))
    (hlength : ∀ key text, (C.crypto.hmac key text).length = 32) {s : String} (hs : AsciiText s)
    (hbytes : utf8Encode s = Client.withoutProof (nonce ++ S.suffix) ++ utf8Encode ",p=" ++
      Base64.encode (List.zipWith (· ^^^ ·) (C.clientKey saltedPassword)
        (C.clientSignature saltedPassword (Client.authMessage (C.clientFirst nonce)
          (Server.serverFirst credentials (nonce ++ S.suffix)) (nonce ++ S.suffix))))) :
    S.receiveFinal (firstExchange C S username credentials nonce)
        (utf8Encode (C.jsonEncode (.obj [("authentication", .str s)])) ++ [0]) =
      S.respondWith (message (118, Base64.encode (C.serverSignature saltedPassword
        (Client.authMessage (C.clientFirst nonce)
          (Server.serverFirst credentials (nonce ++ S.suffix)) (nonce ++ S.suffix)))) []) := by
  have hplain := plain_request hs
  have hboth : Value (nonce ++ S.suffix) := hnonce.append hsuffix
  have hexchange : firstExchange C S username credentials nonce =
      ⟨username, credentials, C.clientFirst nonce, nonce ++ S.suffix,
        Server.serverFirst credentials (nonce ++ S.suffix)⟩ := rfl
  generalize nonce ++ S.suffix = full at *
  generalize hauth : Client.authMessage (C.clientFirst nonce) (Server.serverFirst credentials full) full =
    auth at *
  generalize hproof : List.zipWith (· ^^^ ·) (C.clientKey saltedPassword)
    (C.clientSignature saltedPassword auth) = proof at *
  have hread : S.authentication (utf8Encode (C.jsonEncode (.obj [("authentication", .str s)])) ++ [0]) =
      some (message (99, utf8Encode "biws") [(114, full), (112, Base64.encode proof)]) := by
    rw [authentication_jsonEncode hto hplain rfl, hbytes, clientFinal_eq]
  have hattributes := attributes_clientFinal hboth proof
  have hc : attributeValue 99 (99 :: equals :: utf8Encode "biws") = some (utf8Encode "biws") := rfl
  have hbinding : Base64.decode (utf8Encode "biws") = some (utf8Encode "n,,") := by decide
  have hr : attributeValue 114 (114 :: equals :: full) = some full := rfl
  have hp : attributeValue 112 (112 :: equals :: Base64.encode proof) = some (Base64.encode proof) :=
    rfl
  have hmessage : C.clientFirst nonce ++ comma :: (Server.serverFirst credentials full ++
      comma :: (99 :: equals :: utf8Encode "biws" ++ comma :: 114 :: equals :: full)) = auth := by
    rw [← hauth, Client.authMessage, withoutProof_eq]
    rfl
  have hsignature : S.crypto.hmac credentials.storedKey auth = C.clientSignature saltedPassword auth := by
    rw [hcrypto, hstored]
    rfl
  have hkey : List.zipWith (· ^^^ ·) proof (S.crypto.hmac credentials.storedKey auth) =
      C.clientKey saltedPassword := by
    rw [hsignature, ← hproof, xor_cancel]
    rw [Client.clientKey, Client.clientSignature, hlength, hlength]
  have haccepted : S.crypto.sha256 (C.clientKey saltedPassword) = credentials.storedKey := by
    rw [hcrypto, hstored]
  have hv : utf8Encode "v=" ++ Base64.encode (S.crypto.hmac credentials.serverKey auth) =
      message (118, Base64.encode (C.serverSignature saltedPassword auth)) [] := by
    have hliteral : utf8Encode "v=" = [118, 61] := by decide
    rw [hliteral, hcrypto, hserver]
    rfl
  unfold Server.receiveFinal
  simp only [hread, Option.bind_eq_bind, Option.bind_some, splitOn_message hattributes, List.map_cons,
    List.map_nil, hc, hbinding, hr, hp, Base64.decode_encode, hexchange, hmessage, hkey, haccepted,
    and_self, if_true, hv]

/-! The client's steps, each with the response it expects. -/

variable {h : Session}

theorem nextMessage_first (hstate : h.state = 0) {s : String}
    (hs : asciiDecode (utf8Encode "n,," ++ C.clientFirst (Base64.encode (h.entropy h.draws))) = some s) :
    C.nextMessage none h = (.ok (some (C.initialMessage (.str s))), { h with
      draws := h.draws + 1
      randomNonce := some (Base64.encode (h.entropy h.draws))
      firstClientMessage := some (C.clientFirst (Base64.encode (h.entropy h.draws)))
      state := 1 }) := by
  apply eq_of_wp
  have hdecode : Client.decodeAscii
      (utf8Encode "n,," ++ C.clientFirst (Base64.encode (h.entropy h.draws))) = .ok (.str s) := by
    rw [Client.decodeAscii, hs]
    rfl
  unfold Client.nextMessage Client.step
  refine (wp_ofExcept_bind_ok rfl).mpr ?_
  rw [wp_bind, wp_read, bindPost_ok, hstate]
  refine (wp_map some _).mpr ?_
  unfold Client.initConnection
  refine (wp_raiseIf_bind_not (by simp)).mpr ?_
  rw [wp_bind, wp_read, bindPost_ok, wp_bind, wp_modify, bindPost_ok]
  refine (wp_ofExcept_bind_ok hdecode).mpr ?_
  rw [wp_bind, Client.nextState, wp_modify, bindPost_ok, wp_pure, bindPost_ok, wp_pure, hstate]
  exact ⟨rfl, rfl⟩

theorem plain_version : Plain [("success", .bool true), ("min_protocol_version", .int 0),
    ("max_protocol_version", .int 0)] := by
  refine ⟨by simp, ?_⟩
  simp only [List.forall_mem_cons]
  exact ⟨plainField_bool (by decide) true, plainField_int (by decide) 0, plainField_int (by decide) 0,
    by simp⟩

theorem nextMessage_version (hfrom : Codec S.jsonEncode C.jsonDecode) (hstate : h.state = 1) :
    C.nextMessage (some S.versionResponse) h = (.ok (some []), { h with state := 2 }) := by
  apply eq_of_wp
  have hwithin : between (.int 0) (.int 0) (.int 0) = .ok true := by
    simp [between, Json.le, Json.number, Json.floatLe, require, bind, Except.bind]
  unfold Client.nextMessage Client.step
  refine (wp_ofExcept_bind_ok (decodeText_respond _)).mpr ?_
  rw [wp_bind, wp_read, bindPost_ok, hstate]
  refine (wp_map some _).mpr ?_
  unfold Client.readResponse
  refine (wp_ofExcept_bind_ok (decodeJsonResponse_respond hfrom plain_version)).mpr ?_
  refine (wp_ofExcept_bind_ok rfl).mpr ?_
  refine (wp_ofExcept_bind_ok rfl).mpr ?_
  refine (wp_ofExcept_bind_ok hwithin).mpr ?_
  refine (wp_raiseIf_bind_not (by simp)).mpr ?_
  rw [wp_bind, Client.nextState, wp_modify, bindPost_ok, wp_pure, bindPost_ok, wp_pure, hstate]
  exact ⟨rfl, rfl⟩

theorem plain_reject {error : String} (h : AsciiText error) (errorCode : ℤ) :
    Plain [("success", .bool false), ("error", .str error), ("error_code", .int errorCode)] := by
  refine ⟨by simp, ?_⟩
  simp only [List.forall_mem_cons]
  exact ⟨plainField_bool (by decide) false, plainField_str (by decide) h,
    plainField_int (by decide) errorCode, by simp⟩

theorem decodeJsonResponse_reject (hfrom : Codec S.jsonEncode C.jsonDecode) {error : String}
    (herror : AsciiText error) {errorCode : ℤ} (hcode : 10 ≤ errorCode ∧ errorCode ≤ 20) :
    C.decodeJsonResponse (some (S.jsonEncode (.obj [("success", .bool false), ("error", .str error),
      ("error_code", .int errorCode)]))) = .error (.auth (.str error) C.host C.port) := by
  have hdecode : C.decodeJson (S.jsonEncode (.obj [("success", .bool false), ("error", .str error),
      ("error_code", .int errorCode)])) = .ok (.obj [("success", .bool false), ("error", .str error),
      ("error_code", .int errorCode)]) := by
    rw [Client.decodeJson, hfrom.reads _ (plain_reject herror errorCode)]
  have hwithin : between (.int 10) (.int errorCode) (.int 20) = .ok true := by
    have hlow : (10 : ℚ) ≤ errorCode := by exact_mod_cast hcode.1
    have hhigh : (errorCode : ℚ) ≤ 20 := by exact_mod_cast hcode.2
    simp [between, Json.le, Json.number, Json.floatLe, require, bind, Except.bind, hlow, hhigh]
  change (C.decodeJson _ >>= _) = _
  rw [hdecode]
  change (between (.int 10) (.int errorCode) (.int 20) >>= _) = _
  rw [hwithin]
  rfl

/-- The first response of a server that turns the login down. -/
theorem nextMessage_reject (hfrom : Codec S.jsonEncode C.jsonDecode) (hstate : h.state = 1)
    {error : String} (herror : AsciiText error) {errorCode : ℤ}
    (hcode : 10 ≤ errorCode ∧ errorCode ≤ 20) :
    C.nextMessage (some (S.reject error errorCode)) h =
      (.error (.auth (.str error) C.host C.port), h) := by
  apply eq_of_wp
  have htext : Client.decodeText (some (S.reject error errorCode)) = .ok (some (S.jsonEncode
      (.obj [("success", .bool false), ("error", .str error), ("error_code", .int errorCode)]))) := by
    rw [Client.decodeText, Server.reject, utf8Decode_encode]
    rfl
  unfold Client.nextMessage Client.step
  refine (wp_ofExcept_bind_ok htext).mpr ?_
  rw [wp_bind, wp_read, bindPost_ok, hstate]
  refine (wp_map some _).mpr ?_
  unfold Client.readResponse
  rw [wp_bind, decodeJsonResponse_reject hfrom herror hcode]
  exact ⟨rfl, rfl⟩

theorem nextMessage_serverFirst (hto : Codec C.jsonEncode S.jsonDecode) (hstate : h.state = 2)
    (hnonce : h.randomNonce = some nonce) (hfirst : h.firstClientMessage = some (C.clientFirst nonce))
    {response : Bytes} {text : String} {json : Json} {serverFirst full salt saltedPassword : Bytes}
    {iterations : ℕ} (htext : Client.decodeText (some response) = .ok (some text))
    (hjson : C.decodeJsonResponse (some text) = .ok json)
    (hauth : authenticationOf json = .ok (serverFirst,
      [([114], full), ([115], Base64.encode salt), ([105], decimal iterations)]))
    (hstarting : nonce <+: full) (hiterations : 1 ≤ iterations)
    (hpbkdf2 : C.crypto.pbkdf2 C.password salt iterations = some saltedPassword)
    (hlength : ∀ key text, (C.crypto.hmac key text).length = 32) {s : String} (hs : AsciiText s)
    (hbytes : asciiDecode (Client.withoutProof full ++ utf8Encode ",p=" ++
      Base64.encode (List.zipWith (· ^^^ ·) (C.clientKey saltedPassword)
        (C.clientSignature saltedPassword (Client.authMessage (C.clientFirst nonce) serverFirst full)))) =
      some s) :
    C.nextMessage (some response) h =
      (.ok (some (utf8Encode (C.jsonEncode (.obj [("authentication", .str s)])) ++ [0])), { h with
        serverSignature := some (C.serverSignature saltedPassword
          (Client.authMessage (C.clientFirst nonce) serverFirst full))
        state := 3 }) := by
  apply eq_of_wp
  have hplain := plain_request hs
  have hdecode : Client.decodeAscii (Client.withoutProof full ++ utf8Encode ",p=" ++
      Base64.encode (List.zipWith (· ^^^ ·) (C.clientKey saltedPassword)
        (C.clientSignature saltedPassword (Client.authMessage (C.clientFirst nonce) serverFirst full)))) =
      .ok (.str s) := by
    rw [Client.decodeAscii, hbytes]
    rfl
  have hlatin : latin1Encode (C.jsonEncode (.obj [("authentication", .str s)])) =
      some (utf8Encode (C.jsonEncode (.obj [("authentication", .str s)]))) :=
    charEncode_of_ascii (by decide) fun c hc => (hto.escapes _ hplain c hc).2
  have hr : attributeOf "r" [([114], full), ([115], Base64.encode salt), ([105], decimal iterations)] =
      .ok full := rfl
  have hsalt : attributeOf "s" [([114], full), ([115], Base64.encode salt), ([105], decimal iterations)] =
      .ok (Base64.encode salt) := rfl
  have hi : attributeOf "i" [([114], full), ([115], Base64.encode salt), ([105], decimal iterations)] =
      .ok (decimal iterations) := rfl
  unfold Client.nextMessage Client.step
  refine (wp_ofExcept_bind_ok htext).mpr ?_
  rw [wp_bind, wp_read, bindPost_ok, hstate]
  refine (wp_map some _).mpr ?_
  unfold Client.prepareAuthRequest
  refine (wp_ofExcept_bind_ok hjson).mpr ?_
  refine (wp_ofExcept_bind_ok hauth).mpr ?_
  refine (wp_ofExcept_bind_ok hr).mpr ?_
  rw [wp_bind, wp_read, bindPost_ok, hnonce]
  refine (wp_ofExcept_bind_ok rfl).mpr ?_
  refine (wp_raiseIf_bind_not (by simpa using hstarting)).mpr ?_
  refine (wp_ofExcept_bind_ok hsalt).mpr ?_
  refine (wp_ofExcept_bind_ok (require_eq_ok.mpr (Base64.decode_encode salt))).mpr ?_
  refine (wp_ofExcept_bind_ok hi).mpr ?_
  refine (wp_ofExcept_bind_ok (require_eq_ok.mpr (parseInt_decimal hiterations))).mpr ?_
  refine (wp_ofExcept_bind_ok (require_eq_ok.mpr hpbkdf2)).mpr ?_
  rw [wp_bind, wp_read, bindPost_ok, hfirst]
  refine (wp_ofExcept_bind_ok rfl).mpr ?_
  rw [wp_bind, wp_modify, bindPost_ok]
  refine (wp_ofExcept_bind_ok (if_pos ⟨hlength _ _, hlength _ _⟩)).mpr ?_
  refine (wp_ofExcept_bind_ok hdecode).mpr ?_
  refine (wp_ofExcept_bind_ok (require_eq_ok.mpr hlatin)).mpr ?_
  rw [wp_bind, Client.nextState, wp_modify, bindPost_ok, wp_pure, bindPost_ok, wp_pure, hstate]
  exact ⟨rfl, by rw [hnonce, hfirst]⟩

theorem nextMessage_final (hstate : h.state = 3) {signature : Bytes}
    (hsignature : h.serverSignature = some signature) {response : Bytes} {text : String} {json : Json}
    {serverFinal : Bytes} (htext : Client.decodeText (some response) = .ok (some text))
    (hjson : C.decodeJsonResponse (some text) = .ok json)
    (hauth : authenticationOf json = .ok (serverFinal, [([118], Base64.encode signature)])) :
    C.nextMessage (some response) h = (.ok none, { h with state := 4 }) := by
  apply eq_of_wp
  have hv : attributeOf "v" [([118], Base64.encode signature)] = .ok (Base64.encode signature) := rfl
  have hcompare : compareDigest signature signature = true := compareDigest_iff.mpr rfl
  unfold Client.nextMessage Client.step
  refine (wp_ofExcept_bind_ok htext).mpr ?_
  rw [wp_bind, wp_read, bindPost_ok, hstate]
  refine (wp_bind _ _).mpr ?_
  unfold Client.readAuthResponse
  refine (wp_ofExcept_bind_ok hjson).mpr ?_
  refine (wp_ofExcept_bind_ok hauth).mpr ?_
  refine (wp_ofExcept_bind_ok hv).mpr ?_
  refine (wp_ofExcept_bind_ok (require_eq_ok.mpr (Base64.decode_encode signature))).mpr ?_
  rw [wp_bind, wp_read, bindPost_ok, hsignature]
  refine (wp_ofExcept_bind_ok rfl).mpr ?_
  refine (wp_raiseIf_bind_not (by simp [hcompare])).mpr ?_
  rw [Client.nextState, wp_modify, bindPost_ok, wp_pure, hstate]
  exact ⟨rfl, by rw [hsignature]⟩

theorem new_eq_some {crypto : Crypto} {jsonDecode : String → Except String Json}
    {jsonEncode : Json → String} {version : ℕ} {host : String} {port : ℕ} {password : String}
    (hC : Client.new crypto jsonDecode jsonEncode version host port username password = some C) :
    C.crypto = crypto ∧ C.jsonDecode = jsonDecode ∧ C.jsonEncode = jsonEncode ∧
      C.version.length = 4 ∧ C.username = escapeUsername username := by
  unfold Client.new at hC
  simp only [Option.bind_eq_bind, Option.bind_eq_some_iff, Option.pure_def, Option.some.injEq] at hC
  obtain ⟨secret, -, rfl⟩ := hC
  exact ⟨rfl, rfl, rfl, length_encodeLE 4 version, rfl⟩

/-- Up to the server's first message. -/
theorem first_messages (hto : Codec C.jsonEncode S.jsonDecode) (hfrom : Codec S.jsonEncode C.jsonDecode)
    (hversion : C.version.length = 4) (huser : C.username = escapeUsername username)
    (husername : AsciiText username) (hsuffix : Value S.suffix)
    (hstored : S.credentials username = some credentials) (entropy : ℕ → Bytes)
    (hnonce : Base64.encode (entropy 0) = nonce) :
    ∃ first response text json,
      C.nextMessage none (Session.new entropy) =
        (.ok (some first), ⟨some nonce, some (C.clientFirst nonce), none, 1, entropy, 1⟩) ∧
      S.receiveFirst first = some (firstExchange C S username credentials nonce, response) ∧
      Client.decodeText (some response) = .ok (some text) ∧
      C.decodeJsonResponse (some text) = .ok json ∧
      authenticationOf json = .ok (Server.serverFirst credentials (nonce ++ S.suffix),
        [([114], nonce ++ S.suffix), ([115], Base64.encode credentials.salt),
          ([105], decimal credentials.iterations)]) := by
  have hvalue := value_escapeUsername husername
  have hown : Value nonce := hnonce ▸ value_base64 (entropy 0)
  have hascii : Ascii (utf8Encode "n,," ++ C.clientFirst nonce) := by
    rw [clientFirst_eq, huser]
    exact ascii_append (by decide) (ascii_message (attributes_clientFirst hvalue hown))
  obtain ⟨s, htext, hs, -, -, hbytes⟩ := ascii_text hascii
  obtain ⟨response, text, json, hresponse, hdecode, hjson, hauth⟩ := respondWith_attributes hfrom
    (attributes_serverFirst (hown.append hsuffix) credentials.salt credentials.iterations)
  rw [← serverFirst_eq] at hresponse hauth
  refine ⟨_, response, text, json, ?_, receiveFirst_initialMessage hto hversion huser hvalue hown hstored
    htext hbytes hresponse, hdecode, hjson, hauth⟩
  rw [← hnonce] at hs ⊢
  exact nextMessage_first rfl hs

variable (username) in
/-- From the server's first message on. -/
theorem final_messages (hcrypto : S.crypto = C.crypto) (hto : Codec C.jsonEncode S.jsonDecode)
    (hfrom : Codec S.jsonEncode C.jsonDecode)
    (hlength : ∀ key text, (C.crypto.hmac key text).length = 32) (hnonce : Value nonce)
    (hsuffix : Value S.suffix) {saltedPassword : Bytes} {salt : Bytes} {iterations : ℕ}
    (hiterations : 1 ≤ iterations)
    (hpbkdf2 : C.crypto.pbkdf2 C.password salt iterations = some saltedPassword)
    (hcredentials : Credentials.derive C.crypto salt iterations saltedPassword = credentials)
    {response : Bytes} {text : String} {json : Json}
    (hdecode : Client.decodeText (some response) = .ok (some text))
    (hjson : C.decodeJsonResponse (some text) = .ok json)
    (hauth : authenticationOf json = .ok (Server.serverFirst credentials (nonce ++ S.suffix),
      [([114], nonce ++ S.suffix), ([115], Base64.encode salt), ([105], decimal iterations)]))
    (entropy : ℕ → Bytes) :
    ∃ request proof signature final,
      C.nextMessage (some response) ⟨some nonce, some (C.clientFirst nonce), none, 2, entropy, 1⟩ =
        (.ok (some request), ⟨some nonce, some (C.clientFirst nonce), some signature, 3, entropy, 1⟩) ∧
      S.authentication request = some (message (99, utf8Encode "biws")
        [(114, nonce ++ S.suffix), (112, Base64.encode proof)]) ∧
      S.receiveFinal (firstExchange C S username credentials nonce) request = some final ∧
      S.respondWith (message (118, Base64.encode signature) []) = some final ∧
      C.nextMessage (some final)
          ⟨some nonce, some (C.clientFirst nonce), some signature, 3, entropy, 1⟩ =
        (.ok none, ⟨some nonce, some (C.clientFirst nonce), some signature, 4, entropy, 1⟩) := by
  generalize hmessage : Client.authMessage (C.clientFirst nonce)
    (Server.serverFirst credentials (nonce ++ S.suffix)) (nonce ++ S.suffix) = auth
  generalize hproof : List.zipWith (· ^^^ ·) (C.clientKey saltedPassword)
    (C.clientSignature saltedPassword auth) = proof
  have hascii : Ascii (Client.withoutProof (nonce ++ S.suffix) ++ utf8Encode ",p=" ++
      Base64.encode proof) := by
    rw [clientFinal_eq]
    exact ascii_message (attributes_clientFinal (hnonce.append hsuffix) proof)
  obtain ⟨s, htext, hs, -, -, hbytes⟩ := ascii_text hascii
  have haccepted : S.receiveFinal (firstExchange C S username credentials nonce)
      (utf8Encode (C.jsonEncode (.obj [("authentication", .str s)])) ++ [0]) =
      S.respondWith (message (118, Base64.encode (C.serverSignature saltedPassword auth)) []) := by
    subst hmessage hproof
    refine receiveFinal_clientFinal hto hcrypto hnonce hsuffix ?_ ?_ hlength htext hbytes
    · rw [← hcredentials]
      rfl
    · rw [← hcredentials]
      rfl
  obtain ⟨final, text', json', hfinal, hdecode', hjson', hauth'⟩ := respondWith_attributes hfrom
    (attributes_serverFinal (C.serverSignature saltedPassword auth))
  refine ⟨_, proof, C.serverSignature saltedPassword auth, final, ?_, ?_, haccepted.trans hfinal, hfinal,
    nextMessage_final rfl rfl hdecode' hjson' hauth'⟩
  · subst hmessage hproof
    exact nextMessage_serverFirst hto rfl rfl rfl hdecode hjson hauth ⟨S.suffix, rfl⟩ hiterations hpbkdf2
      hlength htext hs
  · rw [authentication_jsonEncode hto (plain_request htext) rfl, hbytes, clientFinal_eq]

end Run

/-- Whatever ASCII username, password, salt, number of iterations and nonces, the server reads the
username, accepts the proof and is accepted in turn, and no attribute is cut short at a `=`. -/
theorem handshake_agrees {C : Client} {S : Server} {username : String} {crypto : Crypto}
    {jsonDecode : String → Except String Json}
    {jsonEncode : Json → String} {version : ℕ} {host : String} {port : ℕ} {password : String}
    (hC : Client.new crypto jsonDecode jsonEncode version host port username password = some C)
    (hcrypto : S.crypto = crypto) (hto : Codec jsonEncode S.jsonDecode)
    (hfrom : Codec S.jsonEncode jsonDecode) (hlength : ∀ key text, (crypto.hmac key text).length = 32)
    (husername : AsciiText username) (hsuffix : Value S.suffix) {salt : Bytes} {iterations : ℕ}
    (hiterations : 1 ≤ iterations) {saltedPassword : Bytes}
    (hpbkdf2 : crypto.pbkdf2 C.password salt iterations = some saltedPassword)
    (hstored : S.credentials username =
      some (Credentials.derive crypto salt iterations saltedPassword)) (entropy : ℕ → Bytes) :
    ∃ first h₁ h₂ exchange serverFirst h₃ request clientFinal proof final serverFinal signature h₄,
      C.nextMessage none (Session.new entropy) = (.ok (some first), h₁) ∧
      C.nextMessage (some S.versionResponse) h₁ = (.ok (some []), h₂) ∧
      S.receiveFirst first = some (exchange, serverFirst) ∧ exchange.username = username ∧
      attributes exchange.serverFirst = some [([114], exchange.nonce), ([115], Base64.encode salt),
        ([105], decimal iterations)] ∧
      C.nextMessage (some serverFirst) h₂ = (.ok (some request), h₃) ∧
      S.authentication request = some clientFinal ∧
      attributes clientFinal = some [([99], utf8Encode "biws"), ([114], exchange.nonce),
        ([112], Base64.encode proof)] ∧
      S.receiveFinal exchange request = some final ∧ S.respondWith serverFinal = some final ∧
      attributes serverFinal = some [([118], Base64.encode signature)] ∧
      C.nextMessage (some final) h₃ = (.ok none, h₄) := by
  obtain ⟨rfl, rfl, rfl, hversion, huser⟩ := new_eq_some hC
  generalize hnonce : Base64.encode (entropy 0) = nonce
  have hown : Value nonce := hnonce ▸ value_base64 (entropy 0)
  obtain ⟨first, response, text, json, hfirst, hexchange, hdecode, hjson, hauth⟩ :=
    first_messages hto hfrom hversion huser husername hsuffix hstored entropy hnonce
  obtain ⟨request, proof, signature, final, hrequest, hclientFinal, haccepted, hfinal, hdone⟩ :=
    final_messages username hcrypto hto hfrom hlength hown hsuffix hiterations hpbkdf2 rfl hdecode
      hjson hauth entropy
  have hversionResponse : C.nextMessage (some S.versionResponse)
      ⟨some nonce, some (C.clientFirst nonce), none, 1, entropy, 1⟩ =
      (.ok (some []), ⟨some nonce, some (C.clientFirst nonce), none, 2, entropy, 1⟩) :=
    nextMessage_version hfrom rfl
  have hpairs : attributes (Server.serverFirst (Credentials.derive C.crypto salt iterations saltedPassword)
      (nonce ++ S.suffix)) = some [([114], nonce ++ S.suffix), ([115], Base64.encode salt),
        ([105], decimal iterations)] := by
    rw [serverFirst_eq]
    exact attributes_message (attributes_serverFirst (hown.append hsuffix) salt iterations)
  exact ⟨first, _, _, _, response, _, request, _, proof, final, _, signature, _, hfirst, hversionResponse,
    hexchange, rfl, hpairs, hrequest, hclientFinal,
    attributes_message (attributes_clientFinal (hown.append hsuffix) proof), haccepted, hfinal,
    attributes_message (attributes_serverFinal signature), hdone⟩

def sampleHash (bs : Bytes) : Bytes := (bs ++ List.replicate 32 0).take 32

def sampleCrypto : Crypto where
  sha256 := sampleHash
  hmac key text := sampleHash (text.reverse ++ key)
  pbkdf2 password salt iterations :=
    if 1 ≤ iterations then some (sampleHash (password ++ salt)) else none

def sampleClient : Client where
  crypto := sampleCrypto
  jsonDecode := jsonDecode
  jsonEncode := jsonEncode fun _ => []
  version := encodeLE 4 0x34c2bdc3
  host := "localhost"
  port := 28015
  username := escapeUsername "a=,b"
  password := utf8Encode "secret"

def sampleServer : Server where
  crypto := sampleCrypto
  jsonDecode := jsonDecode
  jsonEncode := jsonEncode fun _ => []
  credentials username :=
    if username = "a=,b" then
      some (.derive sampleCrypto [1, 2, 3, 4] 4096 (sampleHash (utf8Encode "secret" ++ [1, 2, 3, 4])))
    else none
  suffix := utf8Encode "x=y"

/-- A username, a salt and a nonce that try the grammar. -/
theorem handshake_agrees_equals :
    ∃ first h₁ h₂ exchange serverFirst h₃ request clientFinal proof final serverFinal signature h₄,
      sampleClient.nextMessage none (Session.new fun _ => [255]) = (.ok (some first), h₁) ∧
      sampleClient.nextMessage (some sampleServer.versionResponse) h₁ = (.ok (some []), h₂) ∧
      sampleServer.receiveFirst first = some (exchange, serverFirst) ∧ exchange.username = "a=,b" ∧
      attributes exchange.serverFirst = some [([114], exchange.nonce),
        ([115], Base64.encode [1, 2, 3, 4]), ([105], decimal 4096)] ∧
      sampleClient.nextMessage (some serverFirst) h₂ = (.ok (some request), h₃) ∧
      sampleServer.authentication request = some clientFinal ∧
      attributes clientFinal = some [([99], utf8Encode "biws"), ([114], exchange.nonce),
        ([112], Base64.encode proof)] ∧
      sampleServer.receiveFinal exchange request = some final ∧
      sampleServer.respondWith serverFinal = some final ∧
      attributes serverFinal = some [([118], Base64.encode signature)] ∧
      sampleClient.nextMessage (some final) h₃ = (.ok none, h₄) := by
  have hlength : ∀ key text, (sampleCrypto.hmac key text).length = 32 := by
    intro key text
    simp [sampleCrypto, sampleHash]
    omega
  have hnew : Client.new sampleCrypto jsonDecode (jsonEncode fun _ => []) 0x34c2bdc3 "localhost" 28015
      "a=,b" "secret" = some sampleClient := rfl
  exact handshake_agrees hnew rfl (codec_json _) (codec_json _) hlength (by decide)
    ⟨by decide, by decide⟩ (by decide) rfl rfl fun _ => [255]

end RethinkDB.Handshake
