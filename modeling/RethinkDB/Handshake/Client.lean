import Mathlib.Data.Nat.Digits.Defs
import RethinkDB.Lib.Base64
import RethinkDB.Lib.Json
import RethinkDB.Lib.Prog
import RethinkDB.Lib.Text

/-! `HandshakeV1_0` of `rethinkdb/handshake.py`, the client of the SCRAM-SHA-256 handshake.
Hashes, the JSON coder and the random generator are given from outside. -/
namespace RethinkDB.Handshake
open RethinkDB.Lib Prog

/-- `driver` and `auth` are the package's own, as is `unsupportedVersion`, the `ReqlDriverError`
"Unsupported protocol version 0, expected between {min} and {max}". The others are Python's,
with `value` also for the errors of `base64` and `int`. -/
inductive HandshakeExn where
  | driver (message : Json)
  | unsupportedVersion (min max : Json)
  | auth (message : Json) (host : String) (port : ℕ)
  | unicode
  | json (text : String)
  | attribute | key | type | value | struct

structure Crypto where
  sha256 : Bytes → Bytes
  /-- Key, then message. -/
  hmac : Bytes → Bytes → Bytes
  /-- Password, salt and iterations; some numbers of iterations are refused. -/
  pbkdf2 : Bytes → Bytes → ℤ → Option Bytes

/-- What `__init__` sets once, and `struct.pack("<L", VERSION)`. -/
structure Client where
  crypto : Crypto
  jsonDecode : String → Except String Json
  jsonEncode : Json → String
  version : Bytes
  host : String
  port : ℕ
  username : Bytes
  password : Bytes

/-- The fields that change; `entropy` is what `SystemRandom` has in store. -/
structure Session where
  randomNonce : Option Bytes
  firstClientMessage : Option Bytes
  serverSignature : Option Bytes
  state : ℕ
  entropy : ℕ → Bytes
  draws : ℕ

def Session.new (entropy : ℕ → Bytes) : Session :=
  { randomNonce := none, firstClientMessage := none, serverSignature := none, state := 0,
    entropy := entropy, draws := 0 }

def comma : UInt8 := 44

def equals : UInt8 := 61

/-- The username as `__init__` stores it: `=` is replaced first. -/
def escapeUsername (username : String) : Bytes :=
  replaceByte comma (utf8Encode "=2C") (replaceByte equals (utf8Encode "=3D") (utf8Encode username))

/-- `__init__`; `six.b` is Latin-1. -/
def Client.new (crypto : Crypto) (jsonDecode : String → Except String Json) (jsonEncode : Json → String)
    (version : ℕ) (host : String) (port : ℕ) (username password : String) : Option Client := do
  return {
    crypto := crypto
    jsonDecode := jsonDecode
    jsonEncode := jsonEncode
    version := encodeLE 4 version
    host := host
    port := port
    username := escapeUsername username
    password := ← latin1Encode password }

/-- The loop of `compare_digest`. -/
def xorFold (result : UInt8) : Bytes → Bytes → UInt8
  | l :: left, r :: right => xorFold (result ||| (l ^^^ r)) left right
  | _, _ => result

/-- The package's own `compare_digest`, which behaves as the one of `hmac`. -/
def compareDigest (digestA digestB : Bytes) : Bool :=
  if digestA.length = digestB.length then xorFold 0 digestA digestB = 0
  else xorFold 1 digestB digestB = 0

theorem xorFold_eq_zero {result : UInt8} {a b : Bytes} (hlen : a.length = b.length) :
    xorFold result a b = 0 ↔ result = 0 ∧ a = b := by
  induction a generalizing result b with
  | nil =>
    cases b with
    | nil => simp [xorFold]
    | cons => cases hlen
  | cons x a ih =>
    cases b with
    | nil => cases hlen
    | cons y b =>
      rw [xorFold, ih (by simpa using hlen), List.cons.injEq, ← and_assoc, UInt8.or_eq_zero_iff,
        UInt8.xor_eq_zero_iff]

theorem compareDigest_iff {a b : Bytes} : compareDigest a b = true ↔ a = b := by
  unfold compareDigest
  split_ifs with hlen
  · simp [xorFold_eq_zero hlen]
  · have hne : a ≠ b := fun h => hlen (congrArg List.length h)
    simp [xorFold_eq_zero rfl, hne]

/-! ### Reading a response -/

def fail {α : Type} (e : HandshakeExn) : Except HandshakeExn α := .error e

def require {α : Type} (e : HandshakeExn) : Option α → Except HandshakeExn α
  | some a => .ok a
  | none => .error e

@[simp] theorem require_eq_ok {α : Type} {e : HandshakeExn} {x : Option α} {a : α} :
    require e x = .ok a ↔ x = some a := by
  cases x <;> simp [require]

@[simp] theorem fail_ne_ok {α : Type} {e : HandshakeExn} {a : α} : fail e ≠ .ok a := by
  simp [fail]

def getField (name : String) : Json → Except HandshakeExn (Option Json)
  | .obj fields => .ok (fields.lookup name)
  | _ => fail .attribute

/-- `json[name]` on what `get` was called on before. -/
def item (name : String) (json : Json) : Except HandshakeExn Json := do
  require .key (← getField name json)

/-- `x <= y <= z`, which does not look at `z` once `x <= y` fails. -/
def between (x y z : Json) : Except HandshakeExn Bool := do
  if ← require .type (x.le y) then require .type (y.le z) else return false

/-- `x.encode("ascii")`. -/
def encodeAscii : Json → Except HandshakeExn Bytes
  | .str s => require .unicode (asciiEncode s)
  | _ => fail .attribute

/-- The pairs of `x.split(b"=", 1) for x in message.split(b",")`, when there is a dict of them. -/
def attributes (message : Bytes) : Option (List (Bytes × Bytes)) :=
  (message.splitOn comma).mapM (cut equals)

/-- `authentication[name]`: of equal keys the last one stays in a dict. -/
def attributeOf (name : String) (pairs : List (Bytes × Bytes)) : Except HandshakeExn Bytes :=
  require .key (pairs.reverse.lookup (utf8Encode name))

/-- `_get_authentication_and_first_client_message`. -/
def authenticationOf (response : Json) : Except HandshakeExn (Bytes × List (Bytes × Bytes)) := do
  let message ← encodeAscii (← item "authentication" response)
  let pairs ← require .value (attributes message)
  return (message, pairs)

def isSpace (b : UInt8) : Bool := b = 32 ∨ 9 ≤ b ∧ b ≤ 13

def isDigit (b : UInt8) : Bool := 48 ≤ b ∧ b ≤ 57

/-- Digits, with single underscores between them. -/
def parseNat (bs : Bytes) : Option ℕ :=
  let groups := bs.splitOn 95
  if ∀ g ∈ groups, g ≠ [] ∧ g.all isDigit then
    some (Nat.ofDigits 10 (groups.flatten.map fun b => b.toNat - 48).reverse)
  else none

/-- `int(x)`. -/
def parseInt (bs : Bytes) : Option ℤ :=
  match ((bs.dropWhile isSpace).reverse.dropWhile isSpace).reverse with
  | 45 :: digits => (parseNat digits).map fun n => -n
  | 43 :: digits => (parseNat digits).map fun n => n
  | digits => (parseNat digits).map fun n => n

namespace Client

variable (C : Client)

/-- What `_decode_json_response` raises for a response without success. -/
def raiseError (json : Json) : Except HandshakeExn Json := do
  let errorCode ← item "error_code" json
  let within ← between (.int 10) errorCode (.int 20)
  let error ← item "error" json
  if within then fail (.auth error C.host C.port) else fail (.driver error)

def decodeJson (text : String) : Except HandshakeExn Json :=
  match C.jsonDecode text with
  | .ok json => .ok json
  | .error e => fail (.json e)

/-- `_decode_json_response`. The text has been decoded already. -/
def decodeJsonResponse (response : Option String) : Except HandshakeExn Json := do
  let json ← C.decodeJson (← require .type response)
  let success ← getField "success" json
  if (success.getD .null).truthy then return json else C.raiseError json

/-! ### The four steps -/

abbrev Step := Prog Session HandshakeExn

def nextState : Step Unit := modify fun h => { h with state := h.state + 1 }

/-- `bytes.decode("ascii")`. -/
def decodeAscii (bs : Bytes) : Except HandshakeExn Json := do
  return .str (← require .unicode (asciiDecode bs))

def clientFirst (nonce : Bytes) : Bytes := utf8Encode "n=" ++ C.username ++ utf8Encode ",r=" ++ nonce

/-- The message around the `authentication` of a client-first message. -/
def initialMessage (authentication : Json) : Bytes :=
  C.version ++ utf8Encode (C.jsonEncode (.obj [("protocol_version", .int 0),
    ("authentication_method", .str "SCRAM-SHA-256"), ("authentication", authentication)])) ++ [0]

def initConnection (response : Option String) : Step Bytes := do
  raiseIf (response ≠ none) (.driver (.str "Unexpected response"))
  let random ← read fun h => h.entropy h.draws
  let nonce := Base64.encode random
  modify fun h => { h with
    draws := h.draws + 1
    randomNonce := some nonce
    firstClientMessage := some (C.clientFirst nonce) }
  let authentication ← ofExcept (decodeAscii (utf8Encode "n,," ++ C.clientFirst nonce))
  nextState
  return C.initialMessage authentication

def readResponse (response : Option String) : Step Bytes := do
  let json ← ofExcept (C.decodeJsonResponse response)
  let min ← ofExcept (item "min_protocol_version" json)
  let max ← ofExcept (item "max_protocol_version" json)
  let within ← ofExcept (between min (.int 0) max)
  raiseIf (!within) (.unsupportedVersion min max)
  nextState
  return []

def withoutProof (nonce : Bytes) : Bytes := utf8Encode "c=biws,r=" ++ nonce

/-- `AuthMessage` of RFC 5802. -/
def authMessage (clientFirst serverFirst nonce : Bytes) : Bytes :=
  clientFirst ++ comma :: (serverFirst ++ comma :: withoutProof nonce)

def serverSignature (saltedPassword message : Bytes) : Bytes :=
  C.crypto.hmac (C.crypto.hmac saltedPassword (utf8Encode "Server Key")) message

def clientKey (saltedPassword : Bytes) : Bytes :=
  C.crypto.hmac saltedPassword (utf8Encode "Client Key")

def clientSignature (saltedPassword message : Bytes) : Bytes :=
  C.crypto.hmac (C.crypto.sha256 (C.clientKey saltedPassword)) message

/-- The XOR through `struct.unpack("32B", ..)`. -/
def xorBytes (left right : Bytes) : Except HandshakeExn Bytes :=
  if left.length = 32 ∧ right.length = 32 then .ok (List.zipWith (· ^^^ ·) left right) else fail .struct

def prepareAuthRequest (response : Option String) : Step Bytes := do
  let json ← ofExcept (C.decodeJsonResponse response)
  let (serverFirst, pairs) ← ofExcept (authenticationOf json)
  let nonce ← ofExcept (attributeOf "r" pairs)
  let ownNonce ← ofExcept (require .type (← read Session.randomNonce))
  raiseIf (!ownNonce.isPrefixOf nonce) (.auth (.str "Invalid nonce from server") C.host C.port)
  let salt ← ofExcept (require .value (Base64.decode (← ofExcept (attributeOf "s" pairs))))
  let iterations ← ofExcept (require .value (parseInt (← ofExcept (attributeOf "i" pairs))))
  let saltedPassword ← ofExcept (require .value (C.crypto.pbkdf2 C.password salt iterations))
  let first ← ofExcept (require .type (← read Session.firstClientMessage))
  let message := authMessage first serverFirst nonce
  modify fun h => { h with serverSignature := some (C.serverSignature saltedPassword message) }
  let proof ← ofExcept
    (xorBytes (C.clientKey saltedPassword) (C.clientSignature saltedPassword message))
  let authentication ← ofExcept
    (decodeAscii (withoutProof nonce ++ utf8Encode ",p=" ++ Base64.encode proof))
  let request ← ofExcept
    (require .unicode (latin1Encode (C.jsonEncode (.obj [("authentication", authentication)]))))
  nextState
  return request ++ [0]

def readAuthResponse (response : Option String) : Step Unit := do
  let json ← ofExcept (C.decodeJsonResponse response)
  let (_, pairs) ← ofExcept (authenticationOf json)
  let signature ← ofExcept (require .value (Base64.decode (← ofExcept (attributeOf "v" pairs))))
  let own ← ofExcept (require .type (← read Session.serverSignature))
  raiseIf (!compareDigest signature own) (.auth (.str "Invalid server signature") C.host C.port)
  nextState

def reset : Step Unit := modify fun h => { h with
  randomNonce := none
  firstClientMessage := none
  serverSignature := none
  state := 0 }

/-- What a response is before `_state` is looked at. -/
def decodeText : Option Bytes → Except HandshakeExn (Option String)
  | some bytes => do return some (← require .unicode (utf8Decode bytes))
  | none => .ok none

/-- The branches of `next_message`: `none` is Python's `None`, the end of the handshake. -/
def step (response : Option String) : Step (Option Bytes) := do
  match ← read Session.state with
  | 0 => some <$> C.initConnection response
  | 1 => some <$> C.readResponse response
  | 2 => some <$> C.prepareAuthRequest response
  | 3 => do
    C.readAuthResponse response
    return none
  | _ => throw (.driver (.str "Unexpected handshake state"))

def nextMessage (response : Option Bytes) : Step (Option Bytes) := do
  C.step (← ofExcept (decodeText response))

end Client
end RethinkDB.Handshake
