import Mathlib.Data.List.Basic
import RethinkDB.Lib.LittleEndian

/-! Byte strings as text: UTF-8, ASCII and Latin-1, and cutting at a separator. -/
namespace RethinkDB.Lib

def utf8Encode (s : String) : Bytes := s.toByteArray.data.toList

def utf8Decode (bs : Bytes) : Option String := String.fromUTF8? bs.toByteArray

theorem utf8Decode_encode (s : String) : utf8Decode (utf8Encode s) = some s := by
  have harray : (utf8Encode s).toByteArray = s.toByteArray := by
    ext1
    rw [utf8Encode, List.data_toByteArray, Array.toArray_toList]
  unfold utf8Decode String.fromUTF8?
  rw [harray, dif_pos s.isValidUTF8]
  rfl

def Ascii (bs : Bytes) : Prop := ∀ b ∈ bs, b.toNat < 128

instance (bs : Bytes) : Decidable (Ascii bs) :=
  List.decidableBAll (fun b : UInt8 => b.toNat < 128) bs

theorem ascii_append {bs cs : Bytes} (hbs : Ascii bs) (hcs : Ascii cs) : Ascii (bs ++ cs) :=
  fun b hb => (List.mem_append.mp hb).elim (hbs b) (hcs b)

/-- Bytes as the characters of their numbers. -/
def ofCodes (bs : Bytes) : String := .ofList (bs.map fun b => Char.ofNat b.toNat)

def asciiDecode (bs : Bytes) : Option String := if Ascii bs then some (ofCodes bs) else none

def Below (bound : ℕ) (s : String) : Prop := ∀ c ∈ s.toList, c.toNat < bound

instance (bound : ℕ) (s : String) : Decidable (Below bound s) :=
  List.decidableBAll (fun c : Char => c.toNat < bound) s.toList

/-- The bytes of a text all of whose characters are below `bound`. -/
def charEncode (bound : ℕ) (s : String) : Option Bytes :=
  if Below bound s then some (s.toList.map fun c => UInt8.ofNat c.toNat) else none

def asciiEncode (s : String) : Option Bytes := charEncode 128 s

def latin1Encode (s : String) : Option Bytes := charEncode 256 s

theorem toNat_ofNat_byte {n : ℕ} (hn : n < 256) : (Char.ofNat n).toNat = n := by
  have hvalid : n.isValidChar := .inl (by omega)
  rw [Char.ofNat, dif_pos hvalid]
  rfl

theorem toNat_ofNat_of_lt {n : ℕ} (hn : n < 128) : (Char.ofNat n).toNat = n :=
  toNat_ofNat_byte (by omega)

theorem charEncode_asciiDecode {bound : ℕ} (hbound : 128 ≤ bound) {bs : Bytes} {s : String}
    (h : asciiDecode bs = some s) : charEncode bound s = some bs := by
  unfold asciiDecode at h
  split_ifs at h with hascii
  cases h
  have hchars : Below bound (ofCodes bs) := by
    intro c hc
    rw [ofCodes, String.toList_ofList] at hc
    obtain ⟨b, hb, rfl⟩ := List.mem_map.mp hc
    rw [toNat_ofNat_of_lt (hascii b hb)]
    exact (hascii b hb).trans_le hbound
  rw [charEncode, if_pos hchars, ofCodes, String.toList_ofList, List.map_map]
  refine congrArg some ((List.map_congr_left fun b hb => ?_).trans (List.map_id _))
  rw [Function.comp_apply, toNat_ofNat_of_lt (hascii b hb), UInt8.ofNat_toNat]
  rfl

theorem utf8Encode_eq_flatMap (s : String) :
    utf8Encode s = s.toList.flatMap String.utf8EncodeChar := by
  rw [utf8Encode, ← String.utf8Encode_toList, List.utf8Encode, List.toList_data_toByteArray]

theorem utf8EncodeChar_of_ascii {c : Char} (hc : c.toNat < 128) :
    String.utf8EncodeChar c = [UInt8.ofNat c.toNat] := by
  have hsize : c.utf8Size = 1 :=
    Char.utf8Size_eq_one_iff.mpr (UInt32.le_iff_toNat_le.mpr (Nat.le_of_lt_succ hc))
  rw [String.utf8EncodeChar_eq_singleton hsize]
  rfl

/-- ASCII characters are single bytes in UTF-8. -/
theorem utf8Encode_of_ascii {s : String} (h : ∀ c ∈ s.toList, c.toNat < 128) :
    utf8Encode s = s.toList.map fun c => UInt8.ofNat c.toNat := by
  rw [utf8Encode_eq_flatMap, List.map_eq_flatMap]
  exact List.flatMap_congr fun c hc => utf8EncodeChar_of_ascii (h c hc)

theorem charEncode_of_ascii {bound : ℕ} (hbound : 128 ≤ bound) {s : String}
    (h : ∀ c ∈ s.toList, c.toNat < 128) : charEncode bound s = some (utf8Encode s) := by
  have hbelow : Below bound s := fun c hc => (h c hc).trans_le hbound
  rw [charEncode, if_pos hbelow, utf8Encode_of_ascii h]

theorem below_of_asciiDecode {bs : Bytes} {s : String} (h : asciiDecode bs = some s) :
    Below 128 s := by
  have hbytes := charEncode_asciiDecode le_rfl h
  unfold charEncode at hbytes
  split_ifs at hbytes with hascii
  exact hascii

theorem utf8Encode_asciiDecode {bs : Bytes} {s : String} (h : asciiDecode bs = some s) :
    utf8Encode s = bs := by
  have hbytes := charEncode_asciiDecode le_rfl h
  rw [charEncode_of_ascii le_rfl (below_of_asciiDecode h)] at hbytes
  exact Option.some.inj hbytes

theorem asciiDecode_of_ascii {bs : Bytes} (h : Ascii bs) : ∃ s, asciiDecode bs = some s :=
  ⟨_, if_pos h⟩

theorem utf8Encode_injective {s t : String} (h : utf8Encode s = utf8Encode t) : s = t := by
  have h := congrArg utf8Decode h
  rw [utf8Decode_encode, utf8Decode_encode] at h
  exact Option.some.inj h

/-- Bytes below 128 are a text of characters below 128. -/
theorem ascii_utf8Encode_iff {s : String} : Ascii (utf8Encode s) ↔ Below 128 s := by
  constructor
  · intro h
    obtain ⟨t, ht⟩ := asciiDecode_of_ascii h
    rw [← utf8Encode_injective (utf8Encode_asciiDecode ht)]
    exact below_of_asciiDecode ht
  · intro h b hb
    rw [utf8Encode_of_ascii h] at hb
    obtain ⟨c, hc, hb⟩ := List.mem_map.mp hb
    have hlt := h c hc
    rw [← hb, UInt8.toNat_ofNat']
    omega

theorem length_utf8Encode (s : String) :
    (utf8Encode s).length = (s.toList.map Char.utf8Size).sum := by
  rw [utf8Encode_eq_flatMap, List.length_flatMap]
  simp only [String.length_utf8EncodeChar]

theorem length_le_utf8Size (l : List Char) : l.length ≤ (l.map Char.utf8Size).sum := by
  induction l with
  | nil => exact Nat.zero_le _
  | cons c l ih =>
    have hc := c.utf8Size_pos
    rw [List.map_cons, List.sum_cons, List.length_cons]
    omega

theorem below_of_length {l : List Char} (h : l.length = (l.map Char.utf8Size).sum) :
    ∀ c ∈ l, c.toNat < 128 := by
  induction l with
  | nil => simp
  | cons c l ih =>
    rw [List.map_cons, List.sum_cons, List.length_cons] at h
    have hc := c.utf8Size_pos
    have hl := length_le_utf8Size l
    rw [List.forall_mem_cons]
    constructor
    · have hone : c.utf8Size = 1 := by omega
      rw [Char.utf8Size_eq_one_iff, UInt32.le_iff_toNat_le] at hone
      exact Nat.lt_succ_of_le hone
    · apply ih
      omega

/-- A character that takes one byte in each of the two encodings is below 128. -/
theorem charEncode_eq_utf8Encode_iff {bound : ℕ} (hbound : 128 ≤ bound) {s : String} :
    charEncode bound s = some (utf8Encode s) ↔ Below 128 s := by
  constructor
  · intro h
    unfold charEncode at h
    split_ifs at h with hbelow
    have hlength := congrArg List.length (Option.some.inj h)
    rw [List.length_map, length_utf8Encode] at hlength
    exact below_of_length hlength
  · exact charEncode_of_ascii hbound

/-- `bytes.split(sep, 1)`, when it gives two parts. -/
def cut (sep : UInt8) : Bytes → Option (Bytes × Bytes)
  | [] => none
  | b :: bs => if b = sep then some ([], bs) else (cut sep bs).map fun p => (b :: p.1, p.2)

theorem cut_append {sep : UInt8} {key : Bytes} (hkey : sep ∉ key) (value : Bytes) :
    cut sep (key ++ sep :: value) = some (key, value) := by
  induction key with
  | nil => simp [cut]
  | cons b key ih =>
    rw [List.mem_cons, not_or] at hkey
    rw [List.cons_append, cut, if_neg (Ne.symm hkey.1), ih hkey.2]
    rfl

theorem cut_eq_some {sep : UInt8} {bs key value : Bytes} (h : cut sep bs = some (key, value)) :
    bs = key ++ sep :: value ∧ sep ∉ key := by
  induction bs generalizing key with
  | nil => cases h
  | cons b bs ih =>
    unfold cut at h
    split_ifs at h with hb
    · cases h
      exact ⟨by rw [hb]; rfl, by simp⟩
    · obtain ⟨⟨k, v⟩, hp, hkv⟩ := Option.map_eq_some_iff.mp h
      cases hkv
      obtain ⟨hbs, hk⟩ := ih hp
      exact ⟨by rw [hbs]; rfl, by simp [Ne.symm hb, hk]⟩

theorem cut_eq_none {sep : UInt8} {bs : Bytes} (h : cut sep bs = none) : sep ∉ bs := by
  induction bs with
  | nil => simp
  | cons b bs ih =>
    unfold cut at h
    split_ifs at h with hb
    rw [List.mem_cons, not_or]
    exact ⟨Ne.symm hb, ih (Option.map_eq_none_iff.mp h)⟩

/-- `bytes.replace` of one byte. -/
def replaceByte (old : UInt8) (new bs : Bytes) : Bytes := bs.flatMap fun b => if b = old then new else [b]

/-! ### Texts made piece by piece -/

theorem flatMap_length {α γ : Type} {f : α → List γ} {l : List α} (h : ∀ x ∈ l, (f x).length = 1) :
    (l.flatMap f).length = l.length := by
  induction l with
  | nil => rfl
  | cons x l ih =>
    rw [List.forall_mem_cons] at h
    rw [List.flatMap_cons, List.length_append, h.1, ih h.2, List.length_cons, Nat.add_comm]

theorem length_le_flatMap {α γ : Type} {g : α → List γ} {l : List α} (h : ∀ x ∈ l, g x ≠ []) :
    l.length ≤ (l.flatMap g).length := by
  induction l with
  | nil => exact Nat.zero_le _
  | cons x l ih =>
    rw [List.forall_mem_cons] at h
    have hx := List.length_pos_of_ne_nil h.1
    have hl := ih h.2
    rw [List.flatMap_cons, List.length_append, List.length_cons]
    omega

/-- A text of one character for each element is one of at least one only where they agree on
each. -/
theorem flatMap_eq_iff {α γ : Type} {f g : α → List γ} {l : List α} (hf : ∀ x ∈ l, (f x).length = 1)
    (hg : ∀ x ∈ l, g x ≠ []) :
    l.flatMap f = l.flatMap g ↔ ∀ x ∈ l, f x = g x := by
  induction l with
  | nil => simp
  | cons x l ih =>
    rw [List.forall_mem_cons] at hf hg ⊢
    rw [← ih hf.2 hg.2, List.flatMap_cons, List.flatMap_cons]
    constructor
    · intro h
      have hlength := congrArg List.length h
      have hfl := flatMap_length hf.2
      have hgl := length_le_flatMap hg.2
      have hx := List.length_pos_of_ne_nil hg.1
      rw [List.length_append, List.length_append, hf.1] at hlength
      exact List.append_inj h (by omega)
    · intro h
      rw [h.1, h.2]

end RethinkDB.Lib
