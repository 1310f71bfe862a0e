import Mathlib.Data.List.Basic
import RethinkDB.Lib.LittleEndian

/-! Base64: the standard alphabet with padding, and a decoder that skips foreign characters. -/
namespace RethinkDB.Lib.Base64
open RethinkDB.Lib

def encodeSextet (n : ℕ) : UInt8 :=
  if n < 26 then .ofNat (65 + n)
  else if n < 52 then .ofNat (97 + (n - 26))
  else if n < 62 then .ofNat (48 + (n - 52))
  else if n = 62 then 43 else 47

def decodeSextet (b : UInt8) : Option ℕ :=
  if 65 ≤ b ∧ b ≤ 90 then some (b.toNat - 65)
  else if 97 ≤ b ∧ b ≤ 122 then some (b.toNat - 97 + 26)
  else if 48 ≤ b ∧ b ≤ 57 then some (b.toNat - 48 + 52)
  else if b = 43 then some 62
  else if b = 47 then some 63
  else none

def pad : UInt8 := 61

def encode : Bytes → Bytes
  | a :: b :: c :: rest =>
    encodeSextet (a.toNat / 4) :: encodeSextet (a.toNat % 4 * 16 + b.toNat / 16) ::
      encodeSextet (b.toNat % 16 * 4 + c.toNat / 64) :: encodeSextet (c.toNat % 64) :: encode rest
  | [a, b] =>
    [encodeSextet (a.toNat / 4), encodeSextet (a.toNat % 4 * 16 + b.toNat / 16),
      encodeSextet (b.toNat % 16 * 4), pad]
  | [a] => [encodeSextet (a.toNat / 4), encodeSextet (a.toNat % 4 * 16), pad, pad]
  | [] => []

/-- How far into a group of four the decoder is, with the bits left over. -/
inductive Quad where
  | zero | one (left : ℕ) | two (left : ℕ) | three (left : ℕ)
  deriving Repr, DecidableEq

def Quad.pos : Quad → ℕ
  | .zero => 0
  | .one _ => 1
  | .two _ => 2
  | .three _ => 3

/-- Padding that completes a group ends the input; an incomplete group is an error. -/
def decodeLoop (quad : Quad) (pads : ℕ) : Bytes → Option Bytes
  | [] => if quad = .zero then some [] else none
  | b :: bs =>
    if b = pad then
      if 2 ≤ quad.pos then
        if 4 ≤ quad.pos + (pads + 1) then some [] else decodeLoop quad (pads + 1) bs
      else decodeLoop quad pads bs
    else match decodeSextet b with
      | none => decodeLoop quad pads bs
      | some v => match quad with
        | .zero => decodeLoop (.one v) 0 bs
        | .one left => (decodeLoop (.two (v % 16)) 0 bs).map (.ofNat (left * 4 + v / 16) :: ·)
        | .two left => (decodeLoop (.three (v % 4)) 0 bs).map (.ofNat (left * 16 + v / 4) :: ·)
        | .three left => (decodeLoop .zero 0 bs).map (.ofNat (left * 64 + v) :: ·)

def decode (bs : Bytes) : Option Bytes := decodeLoop .zero 0 bs

theorem decodeSextet_encode {n : ℕ} (hn : n < 64) : decodeSextet (encodeSextet n) = some n := by
  have hall : ∀ n : Fin 64, decodeSextet (encodeSextet n) = some n.val := by decide
  exact hall ⟨n, hn⟩

/-- Sextets are letters, digits, `+` and `/`. -/
def Alphabet (b : UInt8) : Prop := decodeSextet b ≠ none ∨ b = pad

instance (b : UInt8) : Decidable (Alphabet b) := by
  unfold Alphabet
  infer_instance

theorem encodeSextet_ne_pad (n : ℕ) (hn : n < 64) : encodeSextet n ≠ pad := by
  have hall : ∀ n : Fin 64, encodeSextet n ≠ pad := by decide
  exact hall ⟨n, hn⟩

section Steps
variable {n : ℕ} (hn : n < 64) (pads : ℕ) (bs : Bytes)
include hn

theorem decodeLoop_zero : decodeLoop .zero pads (encodeSextet n :: bs) = decodeLoop (.one n) 0 bs := by
  rw [decodeLoop, if_neg (encodeSextet_ne_pad n hn), decodeSextet_encode hn]

theorem decodeLoop_one (left : ℕ) : decodeLoop (.one left) pads (encodeSextet n :: bs) =
    (decodeLoop (.two (n % 16)) 0 bs).map (.ofNat (left * 4 + n / 16) :: ·) := by
  rw [decodeLoop, if_neg (encodeSextet_ne_pad n hn), decodeSextet_encode hn]

theorem decodeLoop_two (left : ℕ) : decodeLoop (.two left) pads (encodeSextet n :: bs) =
    (decodeLoop (.three (n % 4)) 0 bs).map (.ofNat (left * 16 + n / 4) :: ·) := by
  rw [decodeLoop, if_neg (encodeSextet_ne_pad n hn), decodeSextet_encode hn]

theorem decodeLoop_three (left : ℕ) : decodeLoop (.three left) pads (encodeSextet n :: bs) =
    (decodeLoop .zero 0 bs).map (.ofNat (left * 64 + n) :: ·) := by
  rw [decodeLoop, if_neg (encodeSextet_ne_pad n hn), decodeSextet_encode hn]

end Steps

/-- The round trip, group by group. -/
theorem decode_encode (bs : Bytes) : decode (encode bs) = some bs := by
  unfold decode
  fun_induction encode bs with
  | case1 a b c rest ih =>
    have ha := a.toNat_lt
    have hb := b.toNat_lt
    have hc := c.toNat_lt
    have h₁ : a.toNat / 4 * 4 + (a.toNat % 4 * 16 + b.toNat / 16) / 16 = a.toNat := by omega
    have h₂ : (a.toNat % 4 * 16 + b.toNat / 16) % 16 * 16 + (b.toNat % 16 * 4 + c.toNat / 64) / 4 =
        b.toNat := by omega
    have h₃ : (b.toNat % 16 * 4 + c.toNat / 64) % 4 * 64 + c.toNat % 64 = c.toNat := by omega
    simp (disch := omega) only [decodeLoop_zero, decodeLoop_one, decodeLoop_two, decodeLoop_three,
      ih, h₁, h₂, h₃, UInt8.ofNat_toNat]
    rfl
  | case2 a b =>
    have ha := a.toNat_lt
    have hb := b.toNat_lt
    have h₁ : a.toNat / 4 * 4 + (a.toNat % 4 * 16 + b.toNat / 16) / 16 = a.toNat := by omega
    have h₂ : (a.toNat % 4 * 16 + b.toNat / 16) % 16 * 16 + b.toNat % 16 * 4 / 4 = b.toNat := by
      omega
    simp (disch := omega) only [decodeLoop_zero, decodeLoop_one, decodeLoop_two, h₁, h₂,
      UInt8.ofNat_toNat]
    rfl
  | case3 a =>
    have ha := a.toNat_lt
    have h₁ : a.toNat / 4 * 4 + a.toNat % 4 * 16 / 16 = a.toNat := by omega
    simp (disch := omega) only [decodeLoop_zero, decodeLoop_one, h₁, UInt8.ofNat_toNat]
    rfl
  | case4 => rfl

theorem alphabet_sextet {n : ℕ} (hn : n < 64) : Alphabet (encodeSextet n) :=
  .inl (by rw [decodeSextet_encode hn]; simp)

theorem encode_alphabet (bs : Bytes) : ∀ b ∈ encode bs, Alphabet b := by
  have hpad : Alphabet pad := .inr rfl
  fun_induction encode bs with
  | case1 a b c rest ih =>
    have ha := a.toNat_lt
    have hb := b.toNat_lt
    have hc := c.toNat_lt
    simp only [List.forall_mem_cons]
    exact ⟨alphabet_sextet (by omega), alphabet_sextet (by omega), alphabet_sextet (by omega),
      alphabet_sextet (by omega), ih⟩
  | case2 a b =>
    have ha := a.toNat_lt
    have hb := b.toNat_lt
    simp only [List.forall_mem_cons, List.not_mem_nil, false_imp_iff, implies_true, and_true]
    exact ⟨alphabet_sextet (by omega), alphabet_sextet (by omega), alphabet_sextet (by omega), hpad⟩
  | case3 a =>
    have ha := a.toNat_lt
    simp only [List.forall_mem_cons, List.not_mem_nil, false_imp_iff, implies_true, and_true]
    exact ⟨alphabet_sextet (by omega), alphabet_sextet (by omega), hpad, hpad⟩
  | case4 => simp

theorem toNat_lt_of_alphabet {b : UInt8} (hb : Alphabet b) : b.toNat < 128 := by
  have hall : ∀ n : Fin 256, Alphabet (UInt8.ofNat n) → (UInt8.ofNat n).toNat < 128 := by
    decide +kernel
  have hb' := hall ⟨b.toNat, b.toNat_lt⟩
  rw [UInt8.ofNat_toNat] at hb'
  exact hb' hb

end RethinkDB.Lib.Base64
