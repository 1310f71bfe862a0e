import Mathlib.Data.List.AList
import RethinkDB.Handshake.Client
import RethinkDB.Lib.Hex

/-! What `handshake.py` brings along for a Python whose `hmac` has no `compare_digest` and whose
`hashlib` has no `pbkdf2_hmac`. -/
namespace RethinkDB.Handshake
open RethinkDB.Lib Prog

/-! ### The signature check -/

namespace Client
variable {C : Client} {response : Option String}

def Signed (C : Client) (response : Option String) (signature : Bytes) : Prop :=
  ∃ json message pairs v, C.decodeJsonResponse response = .ok json ∧
    authenticationOf json = .ok (message, pairs) ∧ attributeOf "v" pairs = .ok v ∧
    Base64.decode v = some signature

theorem readAuthResponse_signed (h : Session) :
    wp (C.readAuthResponse response) (fun o _ => o = .ok () → ∃ signature own,
      C.Signed response signature ∧ h.serverSignature = some own ∧
        compareDigest signature own = true) h := by
  have herr : ∀ e : HandshakeExn, (Outcome.error e : Outcome HandshakeExn Unit) = .ok () →
      ∃ signature own, C.Signed response signature ∧ h.serverSignature = some own ∧
        compareDigest signature own = true := by
    intro e heq
    cases heq
  unfold readAuthResponse
  apply wp_ofExcept_bind herr
  intro json hjson
  apply wp_ofExcept_bind herr
  intro ⟨message, pairs⟩ hauth
  apply wp_ofExcept_bind herr
  intro v hv
  apply wp_ofExcept_bind herr
  intro signature hdecode
  rw [wp_bind, wp_read, bindPost_ok]
  apply wp_ofExcept_bind herr
  intro own hown
  apply wp_raiseIf_bind (fun _ => herr _)
  intro hcompare _
  rw [require_eq_ok] at hdecode hown
  exact ⟨signature, own, ⟨json, message, pairs, v, hjson, hauth, hv, hdecode⟩, hown,
    by simpa using hcompare⟩

theorem readAuthResponse_of_signed {h : Session} {signature own : Bytes}
    (hsigned : C.Signed response signature) (hown : h.serverSignature = some own)
    (hcompare : compareDigest signature own = true) :
    wp (C.readAuthResponse response) (fun o _ => o = .ok ()) h := by
  obtain ⟨json, message, pairs, v, hjson, hauth, hv, hdecode⟩ := hsigned
  unfold readAuthResponse
  apply (wp_ofExcept_bind_ok hjson).mpr
  apply (wp_ofExcept_bind_ok hauth).mpr
  apply (wp_ofExcept_bind_ok hv).mpr
  apply (wp_ofExcept_bind_ok (require_eq_ok.mpr hdecode)).mpr
  rw [wp_bind, wp_read, bindPost_ok]
  apply (wp_ofExcept_bind_ok (require_eq_ok.mpr hown)).mpr
  rw [hcompare]
  rfl

end Client

/-- The comparison tells equal strings from all others, of whatever lengths, and the handshake takes
the expected signature and no other. -/
theorem compareDigest_decides (C : Client) (response : Option String) (h : Session) :
    (∀ a b, compareDigest a b = true ↔ a = b) ∧
      ((C.readAuthResponse response h).1 = .ok () ↔
        ∃ signature, C.Signed response signature ∧ h.serverSignature = some signature) := by
  refine ⟨fun a b => compareDigest_iff, fun hok => ?_, fun hsigned => ?_⟩
  · obtain ⟨signature, own, hsigned, hown, hcompare⟩ := Client.readAuthResponse_signed h hok
    rw [compareDigest_iff.mp hcompare] at hsigned
    exact ⟨own, hsigned, hown⟩
  · obtain ⟨signature, hsigned, hown⟩ := hsigned
    exact Client.readAuthResponse_of_signed hsigned hown (compareDigest_iff.mpr rfl)

/-! ### Key derivation -/

namespace Pbkdf2

inductive Exn where
  | assertionError (message : String)
  | valueError
  deriving Repr, DecidableEq

/-- What `hmac.new` makes: a key, and what it has been fed so far. -/
structure Mac where
  key : Bytes
  fed : Bytes

namespace Mac

def new (key : Bytes) : Mac := ⟨key, []⟩

def update (message : Bytes) (mac : Mac) : Mac := { mac with fed := mac.fed ++ message }

def digest (hmac : Bytes → Bytes → Bytes) (mac : Mac) : Bytes := hmac mac.key mac.fed

end Mac

/-- `PBKDF2_CACHE` as a thread sees it: password, salt and iterations are the key. -/
abbrev Cache := AList fun _ : Bytes × Bytes × ℤ => Bytes

def fromBytes (value : Bytes) : Except Exn ℕ :=
  match Hex.toNat (Hex.hexlify value) with
  | some n => .ok n
  | none => .error .valueError

def toBytes (value : ℕ) : Except Exn Bytes :=
  match Hex.unhexlify (Hex.format 64 value) with
  | some bytes => .ok bytes
  | none => .error .valueError

section
-- key, then message
variable (hmac : Bytes → Bytes → Bytes)

/-- `digest`, on a copy of `mac`. -/
def digest (mac : Mac) (message : Bytes) : Bytes := (mac.update message).digest hmac

/-- So many turns of the loop, from `t` and `u`. -/
def xorLoop (mac : Mac) : ℕ → Bytes → ℕ → Except Exn ℕ
  | 0, _, u => .ok u
  | n + 1, t, u => do
    let t := digest hmac mac t
    xorLoop mac n t (u ^^^ (← fromBytes t))

/-- What `pbkdf2_hmac` does when there is nothing in the cache. -/
def derive (password salt : Bytes) (iterations : ℤ) : Except Exn Bytes := do
  let mac := Mac.new password
  let t := digest hmac mac (salt ++ [0, 0, 0, 1])
  let u ← fromBytes t
  let u ← xorLoop hmac mac (iterations - 1).toNat t u
  toBytes u

def pbkdf2Hmac (hashName : String) (password salt : Bytes) (iterations : ℤ) :
    Prog Cache Exn Bytes := do
  raiseIf (hashName ≠ "sha256")
    (.assertionError ("Hash name " ++ hashName ++ " is not equal with \"sha256\""))
  match ← read fun cache => cache.lookup (password, salt, iterations) with
  | some result => return result
  | none => do
    let u ← ofExcept (derive hmac password salt iterations)
    modify fun cache => cache.insert (password, salt, iterations) u
    return u

/-! ### What is derived -/

variable (password salt : Bytes)

/-- U1 for 0, U2 for 1, and so on. -/
def block : ℕ → Bytes
  | 0 => hmac password (salt ++ [0, 0, 0, 1])
  | n + 1 => hmac password (block n)

/-- `U1 XOR ... XOR Un`. -/
def derived (n : ℕ) : Bytes :=
  (List.range n).foldl (fun u k => List.zipWith (· ^^^ ·) u (block hmac password salt k))
    (List.replicate 32 0)

end

section Derivation
variable {hmac : Bytes → Bytes → Bytes} {password salt : Bytes}

theorem digest_new (message : Bytes) :
    digest hmac (Mac.new password) message = hmac password message := rfl

theorem fromBytes_of_length {value : Bytes} (hlength : value.length = 32) :
    fromBytes value = .ok (Hex.bigEndian value) := by
  unfold fromBytes
  rw [Hex.toNat_hexlify (List.ne_nil_of_length_pos (by omega))]

theorem toBytes_bigEndian {value : Bytes} (hlength : value.length = 32) :
    toBytes (Hex.bigEndian value) = .ok value := by
  have hformat := Hex.format_bigEndian (List.ne_nil_of_length_pos (show 0 < value.length by omega))
  rw [hlength] at hformat
  unfold toBytes
  rw [hformat, Hex.unhexlify_hexlify]

theorem derived_succ (n : ℕ) : derived hmac password salt (n + 1) =
    List.zipWith (· ^^^ ·) (derived hmac password salt n) (block hmac password salt n) := by
  unfold derived
  rw [List.range_succ, List.foldl_append, List.foldl_cons, List.foldl_nil]

theorem zipWith_zeros (value : Bytes) :
    List.zipWith (· ^^^ ·) (List.replicate value.length 0) value = value := by
  induction value with
  | nil => rfl
  | cons b value ih =>
    rw [List.length_cons, List.replicate_succ, List.zipWith_cons_cons, ih, UInt8.zero_xor]

section Length
variable (hhmac : ∀ key message, (hmac key message).length = 32) (password salt : Bytes)
include hhmac

theorem length_block (n : ℕ) : (block hmac password salt n).length = 32 := by
  cases n with
  | zero => exact hhmac _ _
  | succ n => exact hhmac _ _

theorem length_derived (n : ℕ) : (derived hmac password salt n).length = 32 := by
  induction n with
  | zero => rfl
  | succ n ih =>
    rw [derived_succ, List.length_zipWith, ih, length_block hhmac password salt, Nat.min_self]

theorem derived_one : derived hmac password salt 1 = block hmac password salt 0 := by
  have hzeros := zipWith_zeros (block hmac password salt 0)
  rw [length_block hhmac password salt 0] at hzeros
  rw [derived_succ]
  exact hzeros

/-- The loop takes one block each turn. -/
theorem xorLoop_eq (n k : ℕ) :
    xorLoop hmac (Mac.new password) n (block hmac password salt k)
      (Hex.bigEndian (derived hmac password salt (k + 1))) =
        .ok (Hex.bigEndian (derived hmac password salt (k + 1 + n))) := by
  induction n generalizing k with
  | zero => rfl
  | succ n ih =>
    have hblock := length_block hhmac password salt (k + 1)
    have hderived := length_derived hhmac password salt (k + 1)
    have hxor := Hex.bigEndian_xor (hderived.trans hblock.symm)
    rw [← derived_succ] at hxor
    rw [xorLoop, digest_new]
    change fromBytes (block hmac password salt (k + 1)) >>= _ = _
    rw [fromBytes_of_length hblock]
    change xorLoop hmac _ n (block hmac password salt (k + 1)) (_ ^^^ _) = _
    rw [hxor, ih, Nat.add_right_comm (k + 1) 1 n]
    rfl

theorem derive_eq {iterations : ℤ} (hpos : 1 ≤ iterations) :
    derive hmac password salt iterations = .ok (derived hmac password salt iterations.toNat) := by
  have hfirst := derived_one hhmac password salt
  have hloop := xorLoop_eq hhmac password salt (iterations - 1).toNat 0
  have hcount : 0 + 1 + (iterations - 1).toNat = iterations.toNat := by omega
  rw [hcount, hfirst] at hloop
  unfold derive
  dsimp only
  rw [digest_new]
  change fromBytes (block hmac password salt 0) >>= _ = _
  rw [fromBytes_of_length (length_block hhmac password salt 0)]
  change xorLoop hmac _ _ (block hmac password salt 0) _ >>= _ = _
  rw [hloop]
  exact toBytes_bigEndian (length_derived hhmac password salt _)

end Length

/-- Every entry is what would be derived for its key. -/
def Exact (hmac : Bytes → Bytes → Bytes) (cache : Cache) : Prop :=
  ∀ password salt iterations result, cache.lookup (password, salt, iterations) = some result →
    1 ≤ iterations → result = derived hmac password salt iterations.toNat

theorem exact_empty : Exact hmac ∅ := by
  intro password salt iterations result hlookup
  rw [AList.lookup_empty] at hlookup
  cases hlookup

theorem Exact.insert {cache : Cache} (h : Exact hmac cache) (password salt : Bytes)
    (iterations : ℤ) :
    Exact hmac (cache.insert (password, salt, iterations)
      (derived hmac password salt iterations.toNat)) := by
  intro password' salt' iterations' result hlookup hpos
  by_cases hkey : (password', salt', iterations') = (password, salt, iterations)
  · cases hkey
    rw [AList.lookup_insert] at hlookup
    exact (Option.some.inj hlookup).symm
  · rw [AList.lookup_insert_ne hkey] at hlookup
    exact h _ _ _ _ hlookup hpos

theorem Exact.pbkdf2Hmac {cache : Cache} (h : Exact hmac cache)
    (hhmac : ∀ key message, (hmac key message).length = 32) (password salt : Bytes)
    {iterations : ℤ} (hpos : 1 ≤ iterations) :
    wp (pbkdf2Hmac hmac "sha256" password salt iterations) (fun o cache' =>
      o = .ok (derived hmac password salt iterations.toNat) ∧ Exact hmac cache') cache := by
  unfold Pbkdf2.pbkdf2Hmac
  apply (wp_raiseIf_bind_not (fun hne => hne rfl)).mpr
  rw [wp_bind, wp_read, bindPost_ok]
  cases hlookup : cache.lookup (password, salt, iterations) with
  | some result =>
    have hresult := h password salt iterations result hlookup hpos
    exact ⟨congrArg Outcome.ok hresult, h⟩
  | none =>
    apply (wp_ofExcept_bind_ok (derive_eq hhmac password salt hpos)).mpr
    rw [wp_bind, wp_modify, bindPost_ok]
    exact ⟨rfl, h.insert password salt iterations⟩

end Derivation

/-! ### The calls of a thread -/

structure Call where
  password : Bytes
  salt : Bytes
  iterations : ℤ

namespace Call

def run (hmac : Bytes → Bytes → Bytes) (call : Call) : Prog Cache Exn Bytes :=
  pbkdf2Hmac hmac "sha256" call.password call.salt call.iterations

def derived (hmac : Bytes → Bytes → Bytes) (call : Call) : Bytes :=
  Pbkdf2.derived hmac call.password call.salt call.iterations.toNat

end Call

theorem Exact.session {hmac : Bytes → Bytes → Bytes} {cache : Cache} (h : Exact hmac cache)
    (hhmac : ∀ key message, (hmac key message).length = 32) {calls : List Call}
    (hpos : ∀ call ∈ calls, 1 ≤ call.iterations) :
    (session (calls.map (Call.run hmac)) cache).1 =
      calls.map fun call => .ok (call.derived hmac) := by
  induction calls generalizing cache with
  | nil => rfl
  | cons call calls ih =>
    have hcall : wp (call.run hmac) _ cache :=
      h.pbkdf2Hmac hhmac call.password call.salt (hpos call List.mem_cons_self)
    obtain ⟨hout, hexact⟩ := hcall
    have hrest := ih hexact fun call hmem => hpos call (List.mem_cons_of_mem _ hmem)
    rcases hrun : call.run hmac cache with ⟨o, cache'⟩
    rw [hrun] at hout hrest
    cases hout
    rw [List.map_cons, Prog.session, hrun]
    change _ :: _ = _ :: _
    rw [hrest]
    rfl

/-- Every call of a thread returns what PBKDF2 derives from its own arguments, whatever the calls
before it have put into the cache. -/
theorem pbkdf2Hmac_derives {hmac : Bytes → Bytes → Bytes}
    (hhmac : ∀ key message, (hmac key message).length = 32) (calls : List Call)
    (hpos : ∀ call ∈ calls, 1 ≤ call.iterations) :
    (session (calls.map (Call.run hmac)) ∅).1 = calls.map fun call => .ok (call.derived hmac) :=
  exact_empty.session hhmac hpos

/-- HMAC-SHA256 under the key `pencil`, of the messages that are asked for here. -/
def pencil (message : Bytes) : Bytes :=
  let first : Bytes := [102, 67, 202, 190, 245, 166, 25, 217, 201, 183, 12, 79, 171, 154, 79, 161,
    211, 222, 112, 50, 155, 227, 33, 21, 15, 149, 228, 237, 198, 223, 168, 20]
  if message = [115, 97, 108, 116, 49, 54, 49, 0, 0, 0, 1] then first
  else if message = first then [102, 195, 66, 60, 213, 71, 146, 66, 204, 214, 46, 36, 124, 55, 191,
    82, 230, 195, 44, 69, 30, 221, 136, 203, 106, 117, 195, 12, 150, 187, 127, 99]
  else List.replicate 32 0

def pencilCall (iterations : ℤ) : Call :=
  ⟨[112, 101, 110, 99, 105, 108], [115, 97, 108, 116, 49, 54, 49], iterations⟩

/-- The second call takes one more iteration, and what it returns starts with a zero byte. -/
theorem pbkdf2Hmac_derives_pencil :
    (session ([pencilCall 1, pencilCall 2].map (Call.run fun _ => pencil)) ∅).1 =
      [.ok (pencil [115, 97, 108, 116, 49, 54, 49, 0, 0, 0, 1]),
        .ok [0, 128, 136, 130, 32, 225, 139, 155, 5, 97, 34, 107, 215, 173, 240, 243, 53, 29, 92,
          119, 133, 62, 169, 222, 101, 224, 39, 225, 80, 100, 215, 119]] := by
  have hlength : ∀ _ message : Bytes, (pencil message).length = 32 := by
    intro _ message
    unfold pencil
    dsimp only
    split_ifs
    · rfl
    · rfl
    · rfl
  have hpos : ∀ call ∈ [pencilCall 1, pencilCall 2], 1 ≤ call.iterations := by
    simp [pencilCall]
  rw [pbkdf2Hmac_derives hlength _ hpos]
  decide

end Pbkdf2
end RethinkDB.Handshake
