import RethinkDB.Lib.JsonText
import RethinkDB.Lib.LittleEndian

/-! Byte strings in hexadecimal, and as big-endian numbers. -/
namespace RethinkDB.Lib.Hex

def hexlifyByte (b : UInt8) : List Char :=
  [Nat.digitChar (b.toNat / 16), Nat.digitChar (b.toNat % 16)]

def hexlify (bytes : Bytes) : List Char := bytes.flatMap hexlifyByte

/-- A digit without a partner is refused, and what is no digit. -/
def unhexlify : List Char → Option Bytes
  | [] => some []
  | [_] => none
  | a :: b :: cs => do
    return UInt8.ofNat ((← Json.hexValue a) * 16 + (← Json.hexValue b)) :: (← unhexlify cs)

/-- `int(cs, 16)` of digits alone. -/
def toNat (cs : List Char) : Option ℕ :=
  if cs = [] then none else cs.foldlM (fun n c => do return n * 16 + (← Json.hexValue c)) 0

/-- `"%0{width}x" % n`. -/
def format (width n : ℕ) : List Char :=
  let digits := Nat.toDigits 16 n
  List.replicate (width - digits.length) '0' ++ digits

/-- The number whose base-256 digits these are, most significant first. -/
def bigEndian (bytes : Bytes) : ℕ := bytes.foldl (fun n b => n * 256 + b.toNat) 0

@[simp] theorem hexlify_append (a b : Bytes) : hexlify (a ++ b) = hexlify a ++ hexlify b :=
  List.flatMap_append

@[simp] theorem bigEndian_concat (bytes : Bytes) (b : UInt8) :
    bigEndian (bytes ++ [b]) = bigEndian bytes * 256 + b.toNat := by
  unfold bigEndian
  rw [List.foldl_append, List.foldl_cons, List.foldl_nil]

theorem hexValue_high (b : UInt8) :
    Json.hexValue (Nat.digitChar (b.toNat / 16)) = some (b.toNat / 16) := by
  have hb := b.toNat_lt
  exact Json.hexValue_digitChar (by omega)

theorem hexValue_low (b : UInt8) :
    Json.hexValue (Nat.digitChar (b.toNat % 16)) = some (b.toNat % 16) :=
  Json.hexValue_digitChar (Nat.mod_lt _ (by omega))

theorem unhexlify_hexlify (bytes : Bytes) : unhexlify (hexlify bytes) = some bytes := by
  induction bytes with
  | nil => rfl
  | cons b bytes ih =>
    have hb : b.toNat / 16 * 16 + b.toNat % 16 = b.toNat := Nat.div_add_mod' b.toNat 16
    change unhexlify (Nat.digitChar (b.toNat / 16) :: Nat.digitChar (b.toNat % 16) ::
      hexlify bytes) = _
    rw [unhexlify, hexValue_high, hexValue_low, ih]
    change some (UInt8.ofNat (b.toNat / 16 * 16 + b.toNat % 16) :: bytes) = _
    rw [hb, UInt8.ofNat_toNat]

theorem foldlM_hexlify (bytes : Bytes) (n : ℕ) :
    (hexlify bytes).foldlM (fun n c => do return n * 16 + (← Json.hexValue c)) n =
      some (bytes.foldl (fun n b => n * 256 + b.toNat) n) := by
  induction bytes generalizing n with
  | nil => rfl
  | cons b bytes ih =>
    have hb : (n * 16 + b.toNat / 16) * 16 + b.toNat % 16 = n * 256 + b.toNat := by omega
    change List.foldlM _ n (Nat.digitChar (b.toNat / 16) :: Nat.digitChar (b.toNat % 16) ::
      hexlify bytes) = _
    rw [List.foldlM_cons, hexValue_high]
    change List.foldlM _ (n * 16 + b.toNat / 16) _ = _
    rw [List.foldlM_cons, hexValue_low]
    change List.foldlM _ ((n * 16 + b.toNat / 16) * 16 + b.toNat % 16) _ = _
    rw [hb, ih, List.foldl_cons]

theorem toNat_hexlify {bytes : Bytes} (hne : bytes ≠ []) :
    toNat (hexlify bytes) = some (bigEndian bytes) := by
  unfold toNat
  rw [if_neg, foldlM_hexlify]
  · rfl
  · intro hnil
    obtain ⟨b, rest, rfl⟩ := List.exists_cons_of_ne_nil hne
    cases hnil

theorem format_digit {n : ℕ} (hn : n < 16) : format 1 n = [Nat.digitChar n] := by
  unfold format
  rw [Nat.toDigits_of_lt_base hn]
  rfl

/-- The last digit. -/
theorem format_succ {width : ℕ} (hwidth : 0 < width) (n : ℕ) :
    format (width + 1) n = format width (n / 16) ++ [Nat.digitChar (n % 16)] := by
  unfold format
  dsimp only
  rw [List.append_assoc]
  by_cases hn : n < 16
  · have hzero : n / 16 = 0 := Nat.div_eq_of_lt hn
    rw [hzero, Nat.toDigits_of_lt_base hn, Nat.toDigits_zero, Nat.mod_eq_of_lt hn,
      List.length_singleton, List.length_singleton, Nat.add_sub_cancel]
    obtain ⟨k, rfl⟩ : ∃ k, width = k + 1 := ⟨width - 1, by omega⟩
    rw [Nat.add_sub_cancel, List.replicate_succ', List.append_assoc]
  · rw [Nat.toDigits_of_base_le (by omega) (by omega), List.length_append, List.length_singleton,
      Nat.add_sub_add_right]

theorem format_bigEndian {bytes : Bytes} (hne : bytes ≠ []) :
    format (2 * bytes.length) (bigEndian bytes) = hexlify bytes := by
  induction bytes using List.reverseRecOn with
  | nil => exact absurd rfl hne
  | append_singleton bytes b ih =>
    have hb := b.toNat_lt
    have hhigh : (bigEndian bytes * 256 + b.toNat) / 16 = bigEndian bytes * 16 + b.toNat / 16 := by
      omega
    have hlow : (bigEndian bytes * 256 + b.toNat) % 16 = b.toNat % 16 := by omega
    have hwidth : 2 * (bytes ++ [b]).length = 2 * bytes.length + 1 + 1 := by
      rw [List.length_append, List.length_singleton]
      omega
    rw [bigEndian_concat, hexlify_append, hwidth, format_succ (by omega), hhigh, hlow]
    by_cases hbytes : bytes = []
    · subst hbytes
      change format 1 (0 * 16 + b.toNat / 16) ++ _ = _
      rw [Nat.zero_mul, Nat.zero_add, format_digit (by omega)]
      rfl
    · have hlength := List.length_pos_of_ne_nil hbytes
      have hhigh' : (bigEndian bytes * 16 + b.toNat / 16) / 16 = bigEndian bytes := by omega
      have hlow' : (bigEndian bytes * 16 + b.toNat / 16) % 16 = b.toNat / 16 := by omega
      rw [format_succ (by omega), hhigh', hlow', ih hbytes, List.append_assoc]
      rfl

/-! ### Exclusive or -/

theorem xor_digit {m n x y : ℕ} (hx : x < 256) (hy : y < 256) :
    (m * 256 + x) ^^^ (n * 256 + y) = (m ^^^ n) * 256 + (x ^^^ y) := by
  have hxy : x ^^^ y < 2 ^ 8 := Nat.xor_lt_two_pow hx hy
  have hdiv := Nat.xor_div_two_pow (a := m * 256 + x) (b := n * 256 + y) (n := 8)
  have hmod := Nat.xor_mod_two_pow (a := m * 256 + x) (b := n * 256 + y) (n := 8)
  rw [show (m * 256 + x) / 2 ^ 8 = m by omega, show (n * 256 + y) / 2 ^ 8 = n by omega] at hdiv
  rw [show (m * 256 + x) % 2 ^ 8 = x by omega, show (n * 256 + y) % 2 ^ 8 = y by omega] at hmod
  omega

theorem bigEndian_xor {a b : Bytes} (hlength : a.length = b.length) :
    bigEndian a ^^^ bigEndian b = bigEndian (List.zipWith (· ^^^ ·) a b) := by
  induction a using List.reverseRecOn generalizing b with
  | nil =>
    rw [List.eq_nil_of_length_eq_zero hlength.symm]
    rfl
  | append_singleton a x ih =>
    obtain ⟨b, y, rfl⟩ : ∃ b' y, b = b' ++ [y] := by
      cases List.eq_nil_or_concat b with
      | inl hnil =>
        rw [hnil, List.length_append, List.length_singleton] at hlength
        cases hlength
      | inr hconcat =>
        obtain ⟨b', y, hb⟩ := hconcat
        exact ⟨b', y, by rw [hb, List.concat_eq_append]⟩
    rw [List.length_append, List.length_append, List.length_singleton, List.length_singleton,
      Nat.add_right_cancel_iff] at hlength
    rw [List.zipWith_append hlength, bigEndian_concat, bigEndian_concat,
      xor_digit x.toNat_lt y.toNat_lt, ih hlength]
    change _ = bigEndian (_ ++ [x ^^^ y])
    rw [bigEndian_concat, UInt8.toNat_xor]

end RethinkDB.Lib.Hex
