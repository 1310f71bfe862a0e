import RethinkDB.Handshake.Agreement

/-! Credentials of any script: what becomes of them on the way to the server. -/
namespace RethinkDB.Handshake
open RethinkDB.Lib Prog

/-- The client-first message goes out with the UTF-8 bytes of the username in its attribute `n`, and
the password for PBKDF2 is that of the user in UTF-8. -/
structure Client.Carries (C : Client) (entropy : ℕ → Bytes) (username password : String) : Prop where
  sends : ∃ first nonce n authentication h,
    C.nextMessage none (Session.new entropy) = (.ok (some (C.initialMessage authentication)), h) ∧
    Client.decodeAscii (utf8Encode "n,," ++ first) = .ok authentication ∧
    attributes first = some [([110], n), ([114], nonce)] ∧
    unescape n = some (utf8Encode username) ∧ comma ∉ n
  password_eq : C.password = utf8Encode password

/-- `__init__` and `next_message(None)` succeed with these credentials. -/
def Carried (crypto : Crypto) (jsonDecode : String → Except String Json) (jsonEncode : Json → String)
    (version : ℕ) (host : String) (port : ℕ) (entropy : ℕ → Bytes) (username password : String) :
    Prop :=
  ∃ C, Client.new crypto jsonDecode jsonEncode version host port username password = some C ∧
    C.Carries entropy username password

variable {C : Client} {h : Session}

theorem ascii_escapeUsername {username : String} (h : Ascii (escapeUsername username)) :
    Below 128 username := by
  rw [← ascii_utf8Encode_iff]
  rw [escapeUsername_eq] at h
  intro b hb
  by_cases hequals : b = equals
  · rw [hequals]
    decide
  by_cases hcomma : b = comma
  · rw [hcomma]
    decide
  apply h b (List.mem_flatMap.mpr ⟨b, hb, _⟩)
  rw [escapeByte, if_neg hequals, if_neg hcomma]
  exact List.mem_singleton.mpr rfl

/-- A first message is ASCII when its username is. -/
theorem ascii_clientFirst {username : String} (huser : C.username = escapeUsername username)
    (random : Bytes) :
    Ascii (utf8Encode "n,," ++ C.clientFirst (Base64.encode random)) ↔ Below 128 username := by
  constructor
  · intro h
    apply ascii_escapeUsername
    intro b hb
    rw [← huser] at hb
    apply h b
    simp [Client.clientFirst, hb]
  · intro h
    rw [clientFirst_eq, huser]
    have hattributes := attributes_clientFirst (value_escapeUsername h) (value_base64 random)
    exact ascii_append (by decide) (ascii_message hattributes)

/-- A first message that is not ASCII is not sent. -/
theorem nextMessage_unicode (hstate : h.state = 0)
    (hascii : ¬Ascii (utf8Encode "n,," ++ C.clientFirst (Base64.encode (h.entropy h.draws)))) :
    (C.nextMessage none h).1 = .error .unicode := by
  have hdecode : Client.decodeAscii
      (utf8Encode "n,," ++ C.clientFirst (Base64.encode (h.entropy h.draws))) = .error .unicode := by
    rw [Client.decodeAscii, asciiDecode, if_neg hascii]
    rfl
  change wp (C.nextMessage none) (fun o _ => o = .error .unicode) h
  unfold Client.nextMessage Client.step
  apply (wp_ofExcept_bind_ok rfl).mpr
  rw [wp_bind, wp_read, bindPost_ok, hstate]
  apply (wp_map some _).mpr
  unfold Client.initConnection
  apply (wp_raiseIf_bind_not (by simp)).mpr
  rw [wp_bind, wp_read, bindPost_ok, wp_bind, wp_modify, bindPost_ok, wp_bind]
  rw [hdecode, wp_ofExcept_error]
  rfl

theorem carries_iff {username password : String} (huser : C.username = escapeUsername username)
    (entropy : ℕ → Bytes) :
    C.Carries entropy username password ↔
      Below 128 username ∧ C.password = utf8Encode password := by
  have hascii := ascii_clientFirst huser (entropy 0)
  constructor
  · intro ⟨hsends, hpassword⟩
    obtain ⟨first, nonce, n, authentication, h, hmessage, -⟩ := hsends
    refine ⟨?_, hpassword⟩
    by_contra husername
    have hunicode := nextMessage_unicode (C := C) (h := .new entropy) rfl
      (mt hascii.mp husername)
    rw [hmessage] at hunicode
    cases hunicode
  · intro ⟨husername, hpassword⟩
    obtain ⟨s, hs⟩ := asciiDecode_of_ascii (hascii.mpr husername)
    have hdecode : Client.decodeAscii
        (utf8Encode "n,," ++ C.clientFirst (Base64.encode (entropy 0))) = .ok (.str s) := by
      rw [Client.decodeAscii, hs]
      rfl
    have hvalue := value_escapeUsername husername
    have hattributes := attributes_message
      (attributes_clientFirst hvalue (value_base64 (entropy 0)))
    rw [← huser, ← clientFirst_eq] at hattributes
    rw [← huser] at hvalue
    refine ⟨⟨_, _, _, _, _, nextMessage_first rfl hs, hdecode, hattributes, ?_, hvalue.2⟩, hpassword⟩
    rw [huser, unescape_escape]

theorem new_password {crypto : Crypto} {jsonDecode : String → Except String Json}
    {jsonEncode : Json → String} {version : ℕ} {host : String} {port : ℕ}
    {username password : String}
    (hC : Client.new crypto jsonDecode jsonEncode version host port username password = some C) :
    latin1Encode password = some C.password := by
  obtain ⟨bytes, hbytes, hC⟩ := Option.bind_eq_some_iff.mp hC
  cases hC
  exact hbytes

/-- Credentials arrive when they are ASCII, and only then. -/
theorem carried_iff (crypto : Crypto) (jsonDecode : String → Except String Json)
    (jsonEncode : Json → String) (version : ℕ) (host : String) (port : ℕ) (entropy : ℕ → Bytes)
    (username password : String) :
    Carried crypto jsonDecode jsonEncode version host port entropy username password ↔
      Below 128 username ∧ Below 128 password := by
  have hpassword := charEncode_eq_utf8Encode_iff (show 128 ≤ 256 by decide) (s := password)
  rw [← hpassword]
  constructor
  · intro ⟨C, hC, hcarries⟩
    obtain ⟨-, -, -, -, huser⟩ := new_eq_some hC
    obtain ⟨husername, hbytes⟩ := (carries_iff huser entropy).mp hcarries
    rw [← hbytes]
    exact ⟨husername, new_password hC⟩
  · intro ⟨husername, hbytes⟩
    have hC : ∃ C, Client.new crypto jsonDecode jsonEncode version host port username password =
        some C ∧ C.username = escapeUsername username ∧ C.password = utf8Encode password := by
      unfold Client.new latin1Encode
      rw [hbytes]
      exact ⟨_, rfl, rfl, rfl⟩
    obtain ⟨C, hC, huser, hbytes⟩ := hC
    exact ⟨C, hC, (carries_iff huser entropy).mpr ⟨husername, hbytes⟩⟩

/-- The password `é`, which is one byte in Latin-1. -/
theorem latin1_password : ¬Carried sampleCrypto jsonDecode (jsonEncode fun _ => []) 0x34c2bdc3
    "localhost" 28015 (fun _ => [255]) "admin" "é" := by
  intro ⟨C, hC, hcarries⟩
  have hbytes := hcarries.password_eq
  have hnew : Client.new sampleCrypto jsonDecode (jsonEncode fun _ => []) 0x34c2bdc3 "localhost"
      28015 "admin" "é" = some { sampleClient with
        username := utf8Encode "admin"
        password := [0xe9] } := rfl
  rw [hnew] at hC
  cases hC
  revert hbytes
  decide

end RethinkDB.Handshake
