import RethinkDB.Handshake.Client

/-! The server's side of the handshake after RFC 5802, apart from the client's code. -/
namespace RethinkDB.Handshake
open RethinkDB.Lib

/-- What a server keeps of a password. -/
structure Credentials where
  salt : Bytes
  iterations : ℕ
  storedKey : Bytes
  serverKey : Bytes

/-- `StoredKey` and `ServerKey` of a salted password. -/
def Credentials.derive (crypto : Crypto) (salt : Bytes) (iterations : ℕ) (saltedPassword : Bytes) :
    Credentials where
  salt := salt
  iterations := iterations
  storedKey := crypto.sha256 (crypto.hmac saltedPassword (utf8Encode "Client Key"))
  serverKey := crypto.hmac saltedPassword (utf8Encode "Server Key")

structure Server where
  crypto : Crypto
  jsonDecode : String → Except String Json
  jsonEncode : Json → String
  credentials : String → Option Credentials
  /-- The server's part of the nonce. -/
  suffix : Bytes

/-- What the server remembers between the two messages of the client. -/
structure Exchange where
  username : String
  credentials : Credentials
  clientFirst : Bytes
  nonce : Bytes
  serverFirst : Bytes

/-- A `saslname` without its escapes; any other `=` is refused. -/
def unescape : Bytes → Option Bytes
  | 61 :: 50 :: 67 :: bs => (unescape bs).map (comma :: ·)
  | 61 :: 51 :: 68 :: bs => (unescape bs).map (equals :: ·)
  | b :: bs => if b = equals then none else (unescape bs).map (b :: ·)
  | [] => some []

def attributeValue (name : UInt8) : Bytes → Option Bytes
  | letter :: 61 :: value => if letter = name then some value else none
  | _ => none

def decimal (n : ℕ) : Bytes := (Nat.digits 10 n).reverse.map fun d => UInt8.ofNat (48 + d)

namespace Server

variable (S : Server)

/-- The `authentication` of a JSON text that ends at a null byte. -/
def authentication (message : Bytes) : Option Bytes := do
  let text ← utf8Decode (message.takeWhile (· ≠ 0))
  match S.jsonDecode text with
  | .ok (.obj fields) => match fields.lookup "authentication" with
    | some (.str s) => some (utf8Encode s)
    | _ => none
  | _ => none

/-- A successful response, without the null byte that the connection strips. -/
def respond (fields : List (String × Json)) : Bytes :=
  utf8Encode (S.jsonEncode (.obj (("success", .bool true) :: fields)))

def versionResponse : Bytes :=
  S.respond [("min_protocol_version", .int 0), ("max_protocol_version", .int 0)]

/-- A login that the server turns down; the codes from 10 to 20 are those of authentication. -/
def reject (error : String) (errorCode : ℤ) : Bytes :=
  utf8Encode (S.jsonEncode (.obj [("success", .bool false), ("error", .str error),
    ("error_code", .int errorCode)]))

def respondWith (authentication : Bytes) : Option Bytes := do
  return S.respond [("authentication", .str (← utf8Decode authentication))]

/-- `r=`, `s=` and `i=`. -/
def serverFirst (credentials : Credentials) (nonce : Bytes) : Bytes :=
  utf8Encode "r=" ++ nonce ++ comma :: (utf8Encode "s=" ++ Base64.encode credentials.salt ++
    comma :: (utf8Encode "i=" ++ decimal credentials.iterations))

/-- The client-first message `n,,n=user,r=nonce`, behind the magic number of the protocol. -/
def receiveFirst (message : Bytes) : Option (Exchange × Bytes) := do
  match (← S.authentication (message.drop 4)).splitOn comma with
  | [flag, authzid, n, r] => do
    let username ← utf8Decode (← unescape (← attributeValue 110 n))
    let credentials ← S.credentials username
    let nonce := (← attributeValue 114 r) ++ S.suffix
    if flag = utf8Encode "n" ∧ authzid = [] then
      let exchange :=
        { username := username, credentials := credentials, clientFirst := n ++ comma :: r,
          nonce := nonce, serverFirst := serverFirst credentials nonce }
      return (exchange, ← S.respondWith exchange.serverFirst)
    else none
  | _ => none

/-- The client-final message `c=biws,r=nonce,p=proof`, and the answer to a proof that holds. -/
def receiveFinal (exchange : Exchange) (message : Bytes) : Option Bytes := do
  match (← S.authentication message).splitOn comma with
  | [c, r, p] => do
    let binding ← Base64.decode (← attributeValue 99 c)
    let nonce ← attributeValue 114 r
    let proof ← Base64.decode (← attributeValue 112 p)
    let authMessage := exchange.clientFirst ++ comma :: (exchange.serverFirst ++
      comma :: (c ++ comma :: r))
    let clientSignature := S.crypto.hmac exchange.credentials.storedKey authMessage
    let clientKey := List.zipWith (· ^^^ ·) proof clientSignature
    if binding = utf8Encode "n,," ∧ nonce = exchange.nonce ∧
        S.crypto.sha256 clientKey = exchange.credentials.storedKey then
      S.respondWith (utf8Encode "v=" ++
        Base64.encode (S.crypto.hmac exchange.credentials.serverKey authMessage))
    else none
  | _ => none

end Server
end RethinkDB.Handshake
