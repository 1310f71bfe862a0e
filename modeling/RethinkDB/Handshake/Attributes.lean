import Mathlib.Data.Nat.Digits.Lemmas
import RethinkDB.Handshake.Server

/-! The attribute grammar of RFC 5802: what the two sides write, they both read back. -/
namespace RethinkDB.Handshake
open RethinkDB.Lib

/-! ### Attributes -/

/-- ASCII without a comma: what the value of an attribute may be. -/
def Value (bs : Bytes) : Prop := Ascii bs ∧ comma ∉ bs

theorem Value.append {bs cs : Bytes} (hbs : Value bs) (hcs : Value cs) : Value (bs ++ cs) :=
  ⟨ascii_append hbs.1 hcs.1, by simp [hbs.2, hcs.2]⟩

theorem ascii_cons_comma {bs : Bytes} (hbs : Ascii bs) : Ascii (comma :: bs) := by
  intro b hb
  rcases List.mem_cons.mp hb with rfl | hb
  · decide
  · exact hbs b hb

theorem value_base64 (bs : Bytes) : Value (Base64.encode bs) := by
  refine ⟨fun b hb => Base64.toNat_lt_of_alphabet (Base64.encode_alphabet bs b hb), fun hb => ?_⟩
  have hcomma : ¬Base64.Alphabet comma := by decide
  exact hcomma (Base64.encode_alphabet bs comma hb)

/-! ### Usernames -/

def escapeByte (b : UInt8) : Bytes :=
  if b = equals then utf8Encode "=3D" else if b = comma then utf8Encode "=2C" else [b]

/-- Replacing `=` first leaves no `=` of an escaped comma to be replaced. -/
theorem escapeUsername_eq (username : String) :
    escapeUsername username = (utf8Encode username).flatMap escapeByte := by
  unfold escapeUsername replaceByte
  rw [List.flatMap_assoc]
  refine List.flatMap_congr fun b _ => ?_
  unfold escapeByte
  split_ifs with hequals hcomma
  · decide
  · simp [hcomma]
  · simp [hcomma]

theorem unescape_cons {b : UInt8} (hb : b ≠ equals) (bs : Bytes) :
    unescape (b :: bs) = (unescape bs).map (b :: ·) := by
  rw [unescape.eq_def]
  split
  · exact absurd (List.cons.inj ‹_›).1 hb
  · exact absurd (List.cons.inj ‹_›).1 hb
  · rename_i h
    obtain ⟨rfl, rfl⟩ := List.cons.inj h
    rw [if_neg hb]
  · cases ‹_›

theorem unescape_escapeByte (b : UInt8) (bs : Bytes) :
    unescape (escapeByte b ++ bs) = (unescape bs).map (b :: ·) := by
  unfold escapeByte
  split_ifs with hequals hcomma
  · rw [hequals]
    rfl
  · rw [hcomma]
    rfl
  · exact unescape_cons hequals bs

theorem unescape_escape (username : String) :
    unescape (escapeUsername username) = some (utf8Encode username) := by
  rw [escapeUsername_eq]
  induction utf8Encode username with
  | nil => rfl
  | cons b bs ih =>
    rw [List.flatMap_cons, unescape_escapeByte, ih]
    rfl

theorem value_escapeUsername {username : String} (h : ∀ c ∈ username.toList, c.toNat < 128) :
    Value (escapeUsername username) := by
  have hbytes : Ascii (utf8Encode username) := by
    rw [utf8Encode_of_ascii h]
    intro b hb
    obtain ⟨c, hc, rfl⟩ := List.mem_map.mp hb
    have hlt := h c hc
    rw [UInt8.toNat_ofNat']
    omega
  have hescape : ∀ b ∈ utf8Encode username, Value (escapeByte b) := by
    intro b hb
    unfold escapeByte
    split_ifs with hequals hcomma
    · exact ⟨by decide, by decide⟩
    · exact ⟨by decide, by decide⟩
    · exact ⟨by simpa [Ascii] using hbytes b hb, by simpa using Ne.symm hcomma⟩
  rw [escapeUsername_eq]
  refine ⟨?_, ?_⟩
  · intro b hb
    obtain ⟨c, hc, hb⟩ := List.mem_flatMap.mp hb
    exact (hescape c hc).1 b hb
  · intro hb
    obtain ⟨c, hc, hb⟩ := List.mem_flatMap.mp hb
    exact (hescape c hc).2 hb

/-! ### Numbers -/

theorem digits_bytes {n : ℕ} {b : UInt8} (hb : b ∈ decimal n) :
    ∃ d < 10, b = UInt8.ofNat (48 + d) := by
  obtain ⟨d, hd, rfl⟩ := List.mem_map.mp hb
  exact ⟨d, Nat.digits_lt_base (by decide) (List.mem_reverse.mp hd), rfl⟩

/-- A digit is neither space, sign, underscore nor comma. -/
theorem decimal_byte {n : ℕ} {b : UInt8} (hb : b ∈ decimal n) :
    isDigit b = true ∧ isSpace b = false ∧ b ≠ 45 ∧ b ≠ 43 ∧ b ≠ 95 ∧ b ≠ comma ∧ b.toNat < 128 := by
  obtain ⟨d, hd, rfl⟩ := digits_bytes hb
  have hall : ∀ d : Fin 10, isDigit (UInt8.ofNat (48 + d)) = true ∧
      isSpace (UInt8.ofNat (48 + d)) = false ∧ UInt8.ofNat (48 + d) ≠ 45 ∧
      UInt8.ofNat (48 + d) ≠ 43 ∧ UInt8.ofNat (48 + d) ≠ 95 ∧ UInt8.ofNat (48 + d) ≠ comma ∧
      (UInt8.ofNat (48 + d)).toNat < 128 := by decide
  exact hall ⟨d, hd⟩

theorem value_decimal (n : ℕ) : Value (decimal n) :=
  ⟨fun _ hb => (decimal_byte hb).2.2.2.2.2.2, fun hb => (decimal_byte hb).2.2.2.2.2.1 rfl⟩

theorem parseNat_decimal {n : ℕ} (hn : 1 ≤ n) : parseNat (decimal n) = some n := by
  have hnil : decimal n ≠ [] := by
    simpa [decimal, Nat.digits_eq_nil_iff_eq_zero] using Nat.one_le_iff_ne_zero.mp hn
  have hsplit : (decimal n).splitOn 95 = [decimal n] :=
    List.splitOn_eq_singleton fun hb => (decimal_byte hb).2.2.2.2.1 rfl
  have hdigits : (decimal n).all isDigit = true :=
    List.all_eq_true.mpr fun b hb => (decimal_byte hb).1
  have hvalues : ((decimal n).map fun b => b.toNat - 48).reverse = Nat.digits 10 n := by
    have hmap : ((decimal n).map fun b => b.toNat - 48) = (Nat.digits 10 n).reverse := by
      unfold decimal
      rw [List.map_map]
      refine (List.map_congr_left fun d hd => ?_).trans (List.map_id _)
      have hd : d < 10 := Nat.digits_lt_base (by decide) (List.mem_reverse.mp hd)
      have hall : ∀ d : Fin 10, (UInt8.ofNat (48 + d)).toNat - 48 = d.val := by decide
      exact hall ⟨d, hd⟩
    rw [hmap, List.reverse_reverse]
  unfold parseNat
  simp only [hsplit, List.mem_singleton, forall_eq, ne_eq, hnil, not_false_eq_true, hdigits, and_self,
    if_true, List.flatten_cons, List.flatten_nil, List.append_nil, hvalues, Nat.ofDigits_digits]

theorem parseInt_decimal {n : ℕ} (hn : 1 ≤ n) : parseInt (decimal n) = some (n : ℤ) := by
  have hspace : ∀ {bs : Bytes}, (∀ b ∈ bs, isSpace b = false) → bs.dropWhile isSpace = bs := by
    intro bs hbs
    cases bs with
    | nil => rfl
    | cons b bs => simp [List.dropWhile, hbs b (by simp)]
  have hdecimal : ∀ b ∈ decimal n, isSpace b = false := fun b hb => (decimal_byte hb).2.1
  unfold parseInt
  rw [hspace hdecimal, hspace (by simpa using hdecimal), List.reverse_reverse]
  split
  · rename_i h
    exact absurd rfl (decimal_byte (n := n) (h ▸ List.mem_cons_self)).2.2.1
  · rename_i h
    exact absurd rfl (decimal_byte (n := n) (h ▸ List.mem_cons_self)).2.2.2.1
  · rw [parseNat_decimal hn]
    rfl

/-! ### Messages -/

def message (first : UInt8 × Bytes) : List (UInt8 × Bytes) → Bytes
  | [] => first.1 :: equals :: first.2
  | next :: rest => first.1 :: equals :: first.2 ++ comma :: message next rest

/-- Names are letters other than `,` and `=`; values may have a `=`, but no comma. -/
def Attributes (xs : List (UInt8 × Bytes)) : Prop :=
  ∀ x ∈ xs, x.1 ≠ comma ∧ x.1 ≠ equals ∧ x.1.toNat < 128 ∧ Value x.2

@[simp] theorem attributes_nil : Attributes [] := by simp [Attributes]

theorem attributes_cons {letter : UInt8} {value : Bytes} {xs : List (UInt8 × Bytes)}
    (hletter : letter ≠ comma ∧ letter ≠ equals ∧ letter.toNat < 128) (hvalue : Value value)
    (hxs : Attributes xs) : Attributes ((letter, value) :: xs) := by
  intro x hx
  rcases List.mem_cons.mp hx with rfl | hx
  · exact ⟨hletter.1, hletter.2.1, hletter.2.2, hvalue⟩
  · exact hxs x hx

theorem splitOn_message {first : UInt8 × Bytes} {rest : List (UInt8 × Bytes)}
    (h : Attributes (first :: rest)) :
    (message first rest).splitOn comma = (first :: rest).map fun x => x.1 :: equals :: x.2 := by
  induction rest generalizing first with
  | nil =>
    obtain ⟨hletter, -, -, -, hvalue⟩ := h first (by simp)
    refine List.splitOn_eq_singleton ?_
    simp only [message, List.mem_cons, not_or]
    exact ⟨Ne.symm hletter, by decide, hvalue⟩
  | cons next rest ih =>
    obtain ⟨hletter, -, -, -, hvalue⟩ := h first (by simp)
    have hfirst : comma ∉ first.1 :: equals :: first.2 := by
      simp only [List.mem_cons, not_or]
      exact ⟨Ne.symm hletter, by decide, hvalue⟩
    rw [message, List.splitOn_append_cons_self_of_not_mem hfirst,
      ih fun x hx => h x (List.mem_cons_of_mem _ hx)]
    rfl

/-- Each attribute is cut at its first `=`, whatever its value. -/
theorem attributes_message {first : UInt8 × Bytes} {rest : List (UInt8 × Bytes)}
    (h : Attributes (first :: rest)) :
    attributes (message first rest) = some ((first :: rest).map fun x => ([x.1], x.2)) := by
  have hcut : ∀ x ∈ first :: rest, cut equals (x.1 :: equals :: x.2) = some ([x.1], x.2) := by
    intro x hx
    have hkey : equals ∉ [x.1] := by simpa using Ne.symm (h x hx).2.1
    exact cut_append hkey x.2
  rw [attributes, splitOn_message h]
  generalize first :: rest = xs at hcut
  induction xs with
  | nil => rfl
  | cons x xs ih =>
    rw [List.map_cons, List.mapM_cons, hcut x (by simp), ih fun x hx => hcut x (by simp [hx])]
    rfl

theorem ascii_message {first : UInt8 × Bytes} {rest : List (UInt8 × Bytes)}
    (h : Attributes (first :: rest)) : Ascii (message first rest) := by
  have hone : ∀ x ∈ first :: rest, Ascii (x.1 :: equals :: x.2) := by
    intro x hx b hb
    simp only [List.mem_cons] at hb
    rcases hb with rfl | rfl | hb
    · exact (h x hx).2.2.1
    · decide
    · exact (h x hx).2.2.2.1 b hb
  clear h
  induction rest generalizing first with
  | nil => exact hone first (by simp)
  | cons next rest ih =>
    exact ascii_append (hone first (by simp))
      (ascii_cons_comma (ih fun x hx => hone x (List.mem_cons_of_mem _ hx)))

theorem clientFirst_eq (C : Client) (nonce : Bytes) :
    C.clientFirst nonce = message (110, C.username) [(114, nonce)] := by
  have hn : utf8Encode "n=" = [110, 61] := by decide
  have hr : utf8Encode ",r=" = [44, 114, 61] := by decide
  rw [Client.clientFirst, hn, hr]
  simp [message, comma, equals]

theorem serverFirst_eq (credentials : Credentials) (nonce : Bytes) :
    Server.serverFirst credentials nonce = message (114, nonce)
      [(115, Base64.encode credentials.salt), (105, decimal credentials.iterations)] := by
  have hr : utf8Encode "r=" = [114, 61] := by decide
  have hs : utf8Encode "s=" = [115, 61] := by decide
  have hi : utf8Encode "i=" = [105, 61] := by decide
  rw [Server.serverFirst, hr, hs, hi]
  simp [message, comma, equals]

theorem withoutProof_eq (nonce : Bytes) :
    Client.withoutProof nonce = message (99, utf8Encode "biws") [(114, nonce)] := by
  have hc : utf8Encode "c=biws,r=" = [99, 61] ++ utf8Encode "biws" ++ [44, 114, 61] := by decide
  rw [Client.withoutProof, hc]
  simp [message, comma, equals]

theorem clientFinal_eq (nonce proof : Bytes) :
    Client.withoutProof nonce ++ utf8Encode ",p=" ++ proof =
      message (99, utf8Encode "biws") [(114, nonce), (112, proof)] := by
  have hp : utf8Encode ",p=" = [44, 112, 61] := by decide
  rw [withoutProof_eq, hp]
  simp [message, comma, equals]

theorem attributes_clientFirst {username nonce : Bytes} (husername : Value username)
    (hnonce : Value nonce) : Attributes [(110, username), (114, nonce)] :=
  attributes_cons (by decide) husername (attributes_cons (by decide) hnonce attributes_nil)

theorem attributes_serverFirst {nonce : Bytes} (hnonce : Value nonce) (salt : Bytes)
    (iterations : ℕ) :
    Attributes [(114, nonce), (115, Base64.encode salt), (105, decimal iterations)] :=
  attributes_cons (by decide) hnonce (attributes_cons (by decide) (value_base64 salt)
    (attributes_cons (by decide) (value_decimal iterations) attributes_nil))

theorem attributes_clientFinal {nonce : Bytes} (hnonce : Value nonce) (proof : Bytes) :
    Attributes [(99, utf8Encode "biws"), (114, nonce), (112, Base64.encode proof)] :=
  attributes_cons (by decide) ⟨by decide, by decide⟩ (attributes_cons (by decide) hnonce
    (attributes_cons (by decide) (value_base64 proof) attributes_nil))

theorem attributes_serverFinal (signature : Bytes) : Attributes [(118, Base64.encode signature)] :=
  attributes_cons (by decide) (value_base64 signature) attributes_nil

end RethinkDB.Handshake
