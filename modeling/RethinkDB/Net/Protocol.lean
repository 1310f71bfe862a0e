import RethinkDB.Lib.LittleEndian

/-! Queries, responses and errors as `rethinkdb/net.py` handles them. Decoded values,
terms and backtraces pass through the driver untouched and are one opaque type `V`. Tokens are Python integers: a
query's is non-negative, one read off the wire is signed. -/
namespace RethinkDB.Net
open RethinkDB.Lib

/-- `pQuery`; `cont` is its `CONTINUE`. -/
inductive QueryType where
  | start | cont | stop | noreplyWait | serverInfo
  deriving Repr, DecidableEq

/-- `pResponse`; the driver meets a number it does not know as `other`. -/
inductive ResponseType where
  | successAtom | successSequence | successPartial | waitComplete | serverInfo
  | clientError | compileError | runtimeError
  | other (n : ℤ)
  deriving Repr, DecidableEq

inductive ErrorType where
  | internal | resourceLimit | queryLogic | nonExistence | opFailed | opIndeterminate
  | user | permissionError
  | other (n : ℤ)
  deriving Repr, DecidableEq

/-- The classes `Response.make_error` chooses from. -/
inductive ErrorClass where
  | driver | serverCompile | runtime | internal | resourceLimit | queryLogic | nonExistence
  | opFailed | opIndeterminate | user | permission
  deriving Repr, DecidableEq

/-- What a call may raise. `driver` and `runtime` carry texts of the driver itself, `reql`
what the server said; `unknownResponseType` is the `ReqlDriverError` whose text is
"Unknown Response type %d encountered in a response."; the last ones are Python's own. -/
inductive Exn (V : Type) where
  | driver (message : String)
  | timeout (host : String) (port : ℕ)
  | runtime (message : String) (term : Option V)
  | reql (cls : ErrorClass) (message : V) (term backtrace : Option V)
  | unknownResponseType (type : ResponseType)
  | cursorEmpty
  | attribute | index | key | struct
  | foreign (text : String)
  deriving Repr, DecidableEq

variable {V : Type}

/-- The JSON object of a response: its fields `t`, `r`, `b`, `p` and `e`. -/
structure Message (V : Type) where
  type : ResponseType
  data : List V
  backtrace : Option V
  profile : Option V
  errorType : Option ErrorType
  deriving Repr, DecidableEq

structure Response (V : Type) extends Message V where
  token : ℤ
  deriving Repr, DecidableEq

/-- `reql_decoder.decode` on the bytes of a payload; it may raise an exception of its own. -/
abbrev Decoder (V : Type) := Bytes → Except String (Message V)

/-- `Response.__init__`. -/
def Response.ofJson (token : ℤ) (json : Bytes) (decoder : Decoder V) :
    Except (Exn V) (Response V) :=
  match decoder json with
  | .ok message => .ok { message with token }
  | .error text => .error (.foreign text)

/-- The `ErrorType` table of `Response.make_error`. -/
def ErrorType.errorClass : ErrorType → ErrorClass
  | .internal => .internal
  | .resourceLimit => .resourceLimit
  | .queryLogic => .queryLogic
  | .nonExistence => .nonExistence
  | .opFailed => .opFailed
  | .opIndeterminate => .opIndeterminate
  | .user => .user
  | .permissionError => .permission
  | .other _ => .runtime

/-- A query. `body` is the JSON text of `[type, term, global_optargs]`, or what the
encoder raises; `noreply` is that entry of `global_optargs`. -/
structure Query (V : Type) where
  type : QueryType
  token : ℤ
  term : Option V
  body : Except String Bytes
  jsonDecoder : Option (Decoder V)
  noreply : Bool

/-- `Response.make_error`: the exception it returns, or the `IndexError` of `data[0]`. -/
def Response.makeError (res : Response V) (query : Query V) : Except (Exn V) (Exn V) :=
  let withData (cls : ErrorClass) : Except (Exn V) (Exn V) :=
    match res.data with
    | [] => .error .index
    | message :: _ => .ok (.reql cls message query.term res.backtrace)
  match res.type with
  | .clientError => withData .driver
  | .compileError => withData .serverCompile
  | .runtimeError => withData ((res.errorType.map ErrorType.errorClass).getD .runtime)
  | type => .ok (.unknownResponseType type)

/-- What `run_query` hands to the user. -/
inductive Reply (V : Type) where
  | none
  | value (v : V)
  | cursor (id : ℕ)
  | profiled (value : Reply V) (profile : V)
  deriving Repr, DecidableEq

def maybeProfile (value : Reply V) (res : Response V) : Reply V :=
  match res.profile with
  | some profile => .profiled value profile
  | none => value

/-! ### The wire format -/

/-- A response on the wire: its token fits eight signed bytes, its length four. -/
structure Frame where
  token : ℤ
  payload : Bytes
  token_ge : -(2 ^ 63) ≤ token
  token_lt : token < 2 ^ 63
  length_lt : payload.length < 2 ^ 32

/-- `struct.pack("<qL", token, length)`. -/
def packHeader (token : ℤ) (length : ℕ) : Bytes :=
  encodeLE 8 (unsigned 8 token) ++ encodeLE 4 length

/-- `struct.unpack("<qL", header)`, which wants exactly twelve bytes. -/
def unpackHeader (header : Bytes) : Option (ℤ × ℕ) :=
  if header.length = 12 then
    some (signed 8 (decodeLE (header.take 8)), decodeLE (header.drop 8))
  else none

def Frame.encode (f : Frame) : Bytes := packHeader f.token f.payload.length ++ f.payload

def encodeFrames (fs : List Frame) : Bytes := fs.flatMap Frame.encode

@[simp] theorem length_packHeader (token : ℤ) (length : ℕ) :
    (packHeader token length).length = 12 := by
  simp [packHeader]

@[simp] theorem unpackHeader_pack (f : Frame) :
    unpackHeader (packHeader f.token f.payload.length) = some (f.token, f.payload.length) := by
  have hge := f.token_ge
  have hlt := f.token_lt
  have hlen := f.length_lt
  have htoken : signed 8 (unsigned 8 f.token) = f.token :=
    signed_unsigned (by omega) (by omega)
  have hlength : decodeLE (encodeLE 4 f.payload.length) = f.payload.length :=
    decodeLE_fits (by omega)
  rw [unpackHeader, if_pos (length_packHeader ..)]
  simp [packHeader, decodeLE_fits (unsigned_lt 8 f.token), htoken, hlength]

@[simp] theorem encodeFrames_nil : encodeFrames [] = [] := rfl

@[simp] theorem encodeFrames_cons (f : Frame) (fs : List Frame) :
    encodeFrames (f :: fs) = packHeader f.token f.payload.length ++ (f.payload ++ encodeFrames fs) := by
  simp [encodeFrames, Frame.encode]

@[simp] theorem encodeFrames_append (fs gs : List Frame) :
    encodeFrames (fs ++ gs) = encodeFrames fs ++ encodeFrames gs := by
  simp [encodeFrames]

/-- `Query.serialize`: `struct.pack("<QL", ..)` raises when a number does not fit. -/
def Query.serialize (q : Query V) : Except (Exn V) Bytes :=
  match q.body with
  | .error text => .error (.foreign text)
  | .ok body =>
    if 0 ≤ q.token ∧ q.token < 2 ^ 64 ∧ body.length < 2 ^ 32 then
      .ok (encodeLE 8 q.token.toNat ++ encodeLE 4 body.length ++ body)
    else .error .struct

end RethinkDB.Net
