import Mathlib.Data.List.SplitBy
import RethinkDB.Lib.Str
import RethinkDB.Lib.Text

/-! URLs, after `urllib.parse`, on the characters of texts. -/
namespace RethinkDB.Lib.Url

/-! ### Percent-encoding -/

/-- The characters that stand for themselves everywhere. -/
def isUnreserved (c : Char) : Bool := c.isAlphanum || c = '_' || c = '.' || c = '-' || c = '~'

def hexDigit (n : ℕ) : Char := if n < 10 then Char.ofNat (48 + n) else Char.ofNat (55 + n)

def hexValue (c : Char) : Option ℕ :=
  if c.isDigit then some (c.toNat - 48)
  else if 'A' ≤ c ∧ c ≤ 'F' then some (c.toNat - 55)
  else if 'a' ≤ c ∧ c ≤ 'f' then some (c.toNat - 87)
  else none

def quoteByte (b : UInt8) : List Char :=
  let c := Char.ofNat b.toNat
  if isUnreserved c then [c] else ['%', hexDigit (b.toNat / 16), hexDigit (b.toNat % 16)]

/-- `quote(cs, safe="")`. -/
def quote (cs : List Char) : List Char := (utf8Encode (.ofList cs)).flatMap quoteByte

/-- `unquote_to_bytes`; a `%` that no two digits follow stays. -/
def unquoteToBytes : List Char → Bytes
  | [] => []
  | ['%', a] => [37] ++ unquoteToBytes [a]
  | '%' :: a :: b :: cs => match hexValue a, hexValue b with
    | some m, some n => UInt8.ofNat (16 * m + n) :: unquoteToBytes cs
    | _, _ => 37 :: unquoteToBytes (a :: b :: cs)
  | c :: cs => UInt8.ofNat c.toNat :: unquoteToBytes cs

/-- `unquote`, which leaves what is not ASCII; `replace` is what `errors="replace"` makes of bytes
that are no UTF-8. -/
def unquote (replace : Bytes → List Char) (cs : List Char) : List Char :=
  let runs := cs.splitBy fun c d => c.toNat < 128 ↔ d.toNat < 128
  runs.flatMap fun run =>
    if run.all fun c => c.toNat < 128 then
      let bytes := unquoteToBytes run
      ((utf8Decode bytes).map String.toList).getD (replace bytes)
    else run

theorem hexDigit_lt {n : ℕ} (hn : n < 16) :
    isUnreserved (hexDigit n) = true ∧ hexValue (hexDigit n) = some n := by
  have hall : ∀ n : Fin 16, isUnreserved (hexDigit n) = true ∧
      hexValue (hexDigit n) = some n.val := by decide
  exact hall ⟨n, hn⟩

theorem isUpper_iff {c : Char} : c.isUpper = true ↔ 65 ≤ c.toNat ∧ c.toNat ≤ 90 := by
  change decide (65 ≤ c.val ∧ c.val ≤ 90) = true ↔ _
  rw [decide_eq_true_eq]
  exact and_congr UInt32.le_iff_toNat_le UInt32.le_iff_toNat_le

theorem isLower_iff {c : Char} : c.isLower = true ↔ 97 ≤ c.toNat ∧ c.toNat ≤ 122 := by
  change (decide (97 ≤ c.val) && decide (c.val ≤ 122)) = true ↔ _
  rw [Bool.and_eq_true, decide_eq_true_eq, decide_eq_true_eq]
  exact and_congr UInt32.le_iff_toNat_le UInt32.le_iff_toNat_le

theorem isDigit_iff {c : Char} : c.isDigit = true ↔ 48 ≤ c.toNat ∧ c.toNat ≤ 57 := by
  change (decide (48 ≤ c.val) && decide (c.val ≤ 57)) = true ↔ _
  rw [Bool.and_eq_true, decide_eq_true_eq, decide_eq_true_eq]
  exact and_congr UInt32.le_iff_toNat_le UInt32.le_iff_toNat_le

theorem isAlphanum_iff {c : Char} :
    c.isAlphanum = true ↔ (c.isUpper = true ∨ c.isLower = true) ∨ c.isDigit = true := by
  change ((c.isUpper || c.isLower) || c.isDigit) = true ↔ _
  rw [Bool.or_eq_true, Bool.or_eq_true]

theorem isUnreserved_ascii {c : Char} (hc : isUnreserved c = true) : c.toNat < 128 := by
  unfold isUnreserved at hc
  simp only [Bool.or_eq_true, decide_eq_true_eq, isAlphanum_iff, isUpper_iff, isLower_iff,
    isDigit_iff] at hc
  rcases hc with (((hc | hc) | hc) | hc) | hc
  · omega
  all_goals rw [hc]; decide

/-- What stands in a percent-encoded text. -/
def isQuoted (c : Char) : Bool := isUnreserved c || c = '%'

theorem quoteByte_quoted (b : UInt8) : ∀ c ∈ quoteByte b, isQuoted c = true := by
  have hb := b.toNat_lt
  unfold quoteByte
  dsimp only
  split_ifs with hunreserved
  · simp [isQuoted, hunreserved]
  · have hhigh := (hexDigit_lt (n := b.toNat / 16) (by omega)).1
    have hlow := (hexDigit_lt (n := b.toNat % 16) (by omega)).1
    simp [isQuoted, hhigh, hlow]

theorem quote_quoted (cs : List Char) : ∀ c ∈ quote cs, isQuoted c = true := by
  intro c hc
  obtain ⟨b, -, hc⟩ := List.mem_flatMap.mp hc
  exact quoteByte_quoted b c hc

theorem isQuoted_ascii {c : Char} (hc : isQuoted c = true) : c.toNat < 128 := by
  cases Bool.or_eq_true_iff.mp hc with
  | inl hc => exact isUnreserved_ascii hc
  | inr hc =>
    rw [of_decide_eq_true hc]
    decide

theorem unquoteToBytes_cons {c : Char} (hc : c ≠ '%') (cs : List Char) :
    unquoteToBytes (c :: cs) = UInt8.ofNat c.toNat :: unquoteToBytes cs := by
  rw [unquoteToBytes.eq_def]
  split
  · contradiction
  · rename_i h
    exact absurd (List.cons.inj h).1 hc
  · rename_i h
    exact absurd (List.cons.inj h).1 hc
  · rename_i h
    cases h
    rfl

theorem unquoteToBytes_quoteByte (b : UInt8) (cs : List Char) :
    unquoteToBytes (quoteByte b ++ cs) = b :: unquoteToBytes cs := by
  have hb := b.toNat_lt
  unfold quoteByte
  dsimp only
  split_ifs with hunreserved
  · have hc : Char.ofNat b.toNat ≠ '%' := by
      intro hc
      rw [hc] at hunreserved
      cases hunreserved
    rw [List.singleton_append, unquoteToBytes_cons hc, toNat_ofNat_byte hb]
    simp
  · have hhigh := (hexDigit_lt (n := b.toNat / 16) (by omega)).2
    have hlow := (hexDigit_lt (n := b.toNat % 16) (by omega)).2
    have hsum : 16 * (b.toNat / 16) + b.toNat % 16 = b.toNat := by omega
    simp [unquoteToBytes, hhigh, hlow, hsum]

theorem unquoteToBytes_quote (cs : List Char) :
    unquoteToBytes (quote cs) = utf8Encode (.ofList cs) := by
  unfold quote
  induction utf8Encode (.ofList cs) with
  | nil => rfl
  | cons b bs ih => rw [List.flatMap_cons, unquoteToBytes_quoteByte, ih]

theorem unquote_quote (replace : Bytes → List Char) (cs : List Char) :
    unquote replace (quote cs) = cs := by
  have hascii : ∀ c ∈ quote cs, c.toNat < 128 := fun c hc => isQuoted_ascii (quote_quoted cs c hc)
  have hruns : (quote cs).splitBy (fun c d => c.toNat < 128 ↔ d.toNat < 128) =
      if quote cs = [] then [] else [quote cs] := by
    split_ifs with hempty
    · rw [hempty]
      rfl
    · apply List.splitBy_of_isChain hempty
      apply List.Pairwise.isChain
      apply List.pairwise_of_forall_mem_list
      intro c hc d hd
      simp [hascii c hc, hascii d hd]
  have hbytes := unquoteToBytes_quote cs
  unfold unquote
  dsimp only
  rw [hruns]
  split_ifs with hempty
  · rw [hempty] at hbytes
    have hcs : String.ofList cs = "" := utf8Encode_injective hbytes.symm
    have hcs := congrArg String.toList hcs
    rw [String.toList_ofList] at hcs
    exact hcs.symm
  · have hall : ((quote cs).all fun c => c.toNat < 128) = true := by simpa using hascii
    rw [List.flatMap_singleton, if_pos hall, hbytes, utf8Decode_encode]
    exact String.toList_ofList

theorem quoteByte_ne_nil (b : UInt8) : quoteByte b ≠ [] := by
  unfold quoteByte
  dsimp only
  split_ifs <;> simp

def quoteChar (c : Char) : List Char := (String.utf8EncodeChar c).flatMap quoteByte

theorem quoteChar_eq_iff (c : Char) : [c] = quoteChar c ↔ isUnreserved c = true := by
  constructor
  · intro h
    have hc : c ∈ quoteChar c := by
      rw [← h]
      exact List.mem_singleton.mpr rfl
    obtain ⟨b, -, hb⟩ := List.mem_flatMap.mp hc
    cases Bool.or_eq_true_iff.mp (quoteByte_quoted b c hb) with
    | inl hc => exact hc
    | inr hpercent =>
      rw [of_decide_eq_true hpercent] at h ⊢
      revert h
      decide
  · intro h
    have hascii := isUnreserved_ascii h
    have hnat : (UInt8.ofNat c.toNat).toNat = c.toNat := by
      rw [UInt8.toNat_ofNat']
      omega
    have hc : Char.ofNat (UInt8.ofNat c.toNat).toNat = c := by rw [hnat, Char.ofNat_toNat]
    rw [quoteChar, utf8EncodeChar_of_ascii hascii, List.flatMap_singleton, quoteByte, hc,
      if_pos h]

/-- Percent-encoding leaves the texts of unreserved characters, and no others. -/
theorem quote_eq_self_iff (cs : List Char) :
    quote cs = cs ↔ ∀ c ∈ cs, isUnreserved c = true := by
  have hquote : quote cs = cs.flatMap quoteChar := by
    rw [quote, utf8Encode_eq_flatMap, String.toList_ofList, List.flatMap_assoc]
    rfl
  have hne : ∀ c ∈ cs, quoteChar c ≠ [] := by
    intro c _ h
    have hbytes := String.utf8EncodeChar_ne_nil (c := c)
    obtain ⟨b, hb⟩ := List.exists_mem_of_ne_nil _ hbytes
    exact quoteByte_ne_nil b (List.flatMap_eq_nil_iff.mp h b hb)
  have h := flatMap_eq_iff (f := fun c => [c]) (fun c _ => rfl) hne
  rw [List.flatMap_singleton'] at h
  rw [hquote, eq_comm, h]
  exact forall₂_congr fun c _ => quoteChar_eq_iff c

theorem unquote_unreserved (replace : Bytes → List Char) {cs : List Char}
    (h : ∀ c ∈ cs, isUnreserved c = true) : unquote replace cs = cs := by
  have hunquote := unquote_quote replace cs
  rwa [(quote_eq_self_iff cs).mpr h] at hunquote

theorem quote_eq_nil_iff {cs : List Char} : quote cs = [] ↔ cs = [] := by
  constructor
  · intro h
    have hunquote := unquote_quote (fun _ => []) cs
    rw [h] at hunquote
    exact hunquote.symm
  · intro h
    rw [h]
    rfl

/-! ### Splitting -/

variable {α : Type} [DecidableEq α]

/-- `partition`, where the separator is found. -/
def partition (sep : α) : List α → Option (List α × List α)
  | [] => none
  | c :: cs => if c = sep then some ([], cs) else (partition sep cs).map fun p => (c :: p.1, p.2)

/-- `rpartition`, where the separator is found. -/
def rpartition (sep : α) (cs : List α) : Option (List α × List α) :=
  (partition sep cs.reverse).map fun p => (p.2.reverse, p.1.reverse)

theorem partition_eq_none {sep : α} {cs : List α} (h : sep ∉ cs) : partition sep cs = none := by
  induction cs with
  | nil => rfl
  | cons c cs ih =>
    rw [List.mem_cons, not_or] at h
    rw [partition, if_neg (Ne.symm h.1), ih h.2]
    rfl

theorem partition_append {sep : α} {key : List α} (hkey : sep ∉ key) (value : List α) :
    partition sep (key ++ sep :: value) = some (key, value) := by
  induction key with
  | nil => simp [partition]
  | cons c key ih =>
    rw [List.mem_cons, not_or] at hkey
    rw [List.cons_append, partition, if_neg (Ne.symm hkey.1), ih hkey.2]
    rfl

theorem rpartition_append {sep : α} (key : List α) {value : List α} (hvalue : sep ∉ value) :
    rpartition sep (key ++ sep :: value) = some (key, value) := by
  have hreverse : (key ++ sep :: value).reverse = value.reverse ++ sep :: key.reverse := by simp
  rw [rpartition, hreverse, partition_append (by simpa using hvalue)]
  simp

structure ParseResult where
  scheme : List Char
  netloc : List Char
  path : List Char
  query : List Char
  fragment : List Char

def isSchemeChar (c : Char) : Bool := c.isAlphanum || c = '+' || c = '-' || c = '.'

/-- `urlparse` of a URL without control characters, brackets and `;`. -/
def urlparse (url : List Char) : ParseResult :=
  let (scheme, rest) := match partition ':' url with
    | some (scheme, rest) =>
      if (scheme.take 1).any Char.isAlpha && scheme.all isSchemeChar then
        (scheme.map Char.toLower, rest)
      else ([], url)
    | none => ([], url)
  let (netloc, rest) := match rest with
    | '/' :: '/' :: rest => rest.span fun c => c ∉ ['/', '?', '#']
    | _ => ([], rest)
  let (rest, fragment) := (partition '#' rest).getD (rest, [])
  let (path, query) := (partition '?' rest).getD (rest, [])
  ⟨scheme, netloc, path, query, fragment⟩

namespace ParseResult
variable (result : ParseResult)

def userinfo : Option (List Char) × Option (List Char) :=
  match rpartition '@' result.netloc with
  | some (userinfo, _) => match partition ':' userinfo with
    | some (username, password) => (some username, some password)
    | none => (some userinfo, none)
  | none => (none, none)

/-- The host and the port, if that is given. -/
def hostinfo : List Char × Option (List Char) :=
  let hostinfo := ((rpartition '@' result.netloc).map Prod.snd).getD result.netloc
  match partition ':' hostinfo with
  | some (hostname, port) => (hostname, if port = [] then none else some port)
  | none => (hostinfo, none)

def hostname : Option (List Char) :=
  if result.hostinfo.1 = [] then none else some (result.hostinfo.1.map Char.toLower)

/-- The `port`; the outer `none` is a `ValueError`. -/
def port : Option (Option ℕ) :=
  match result.hostinfo.2 with
  | none => some none
  | some digits =>
    let port := Nat.ofDigitChars 10 digits 0
    if digits.all Char.isDigit && port ≤ 65535 then some (some port) else none

end ParseResult

/-- `unquote` of a text in which `+` is a blank. -/
def unquotePlus (replace : Bytes → List Char) (cs : List Char) : List Char :=
  unquote replace (cs.map fun c => if c = '+' then ' ' else c)

/-- What `parse_qs` makes of the text between two `&`. -/
def nameValue (replace : Bytes → List Char) (cs : List Char) : List (List Char × List Char) :=
  match partition '=' cs with
  | some (name, value) =>
    if value = [] then [] else [(unquotePlus replace name, unquotePlus replace value)]
  | none => []

/-- `parse_qs`: each name with each of its values. -/
def parseQs (replace : Bytes → List Char) (query : List Char) : List (List Char × List Char) :=
  (query.splitOn '&').flatMap (nameValue replace)

/-! ### Reading what was put together -/

/-- Texts of quoted characters contain none of the separators. -/
def Quoted (cs : List Char) : Prop := ∀ c ∈ cs, isQuoted c = true

theorem Quoted.not_mem {cs : List Char} (h : Quoted cs) {c : Char} (hc : isQuoted c = false) :
    c ∉ cs := by
  intro hmem
  have hquoted := h c hmem
  rw [hc] at hquoted
  cases hquoted

theorem unreserved_digits (n : ℕ) : ∀ c ∈ Nat.toDigits 10 n, isUnreserved c = true := by
  intro c hc
  have hdigit := Nat.isDigit_of_mem_toDigits (by decide) (by decide) hc
  simp [isUnreserved, isAlphanum_iff, hdigit]

theorem quoted_digits (n : ℕ) : Quoted (Nat.toDigits 10 n) := by
  intro c hc
  simp [isQuoted, unreserved_digits n c hc]

theorem Quoted.unquotePlus {cs : List Char} (h : Quoted cs) (replace : Bytes → List Char) :
    unquotePlus replace cs = unquote replace cs := by
  have hplus : cs.map (fun c => if c = '+' then ' ' else c) = cs.map id := by
    apply List.map_congr_left
    intro c hc
    apply if_neg
    intro hplus
    rw [hplus] at hc
    exact h.not_mem (by decide) hc
  rw [Url.unquotePlus, hplus, List.map_id]

theorem partition_none_getD {sep : α} {cs : List α} (h : sep ∉ cs) :
    (partition sep cs).getD (cs, []) = (cs, []) := by
  rw [partition_eq_none h]
  rfl

/-- `scheme://netloc/path?query`. -/
theorem urlparse_eq {scheme netloc path query : List Char}
    (hscheme : (scheme.take 1).any Char.isAlpha = true ∧ scheme.all isSchemeChar = true)
    (hnetloc : ∀ c ∈ netloc, c ∉ ['/', '?', '#']) (hpath : '?' ∉ path ∧ '#' ∉ path)
    (hquery : '#' ∉ query) :
    urlparse (scheme ++ ':' :: '/' :: '/' :: (netloc ++ '/' :: path ++ '?' :: query)) =
      ⟨scheme.map Char.toLower, netloc, '/' :: path, query, []⟩ := by
  have hcolon : ':' ∉ scheme := by
    intro hmem
    have hchar := List.all_eq_true.mp hscheme.2 ':' hmem
    revert hchar
    decide
  have hspan : (netloc ++ '/' :: path ++ '?' :: query).span (fun c => c ∉ ['/', '?', '#']) =
      (netloc, '/' :: path ++ '?' :: query) := by
    have hpos : ∀ c ∈ netloc, decide (c ∉ ['/', '?', '#']) = true := by
      intro c hc
      simpa using hnetloc c hc
    rw [List.span_eq_takeWhile_dropWhile, List.append_assoc, List.takeWhile_append_of_pos hpos,
      List.dropWhile_append_of_pos hpos]
    simp
  have hhash : '#' ∉ '/' :: path ++ '?' :: query := by
    simp [hquery, hpath]
  have hquestion : '?' ∉ '/' :: path := by simp [hpath]
  unfold urlparse
  rw [partition_append hcolon]
  simp only [hscheme, Bool.and_self, if_true, hspan]
  rw [partition_none_getD hhash, partition_append hquestion]
  rfl

/-- `userinfo@hostname:port`. -/
theorem hostinfo_eq {result : ParseResult} {userinfo hostname port : List Char}
    (hnetloc : result.netloc = userinfo ++ '@' :: (hostname ++ ':' :: port))
    (hhost : Quoted hostname) (hport : Quoted port) (hne : port ≠ []) :
    result.hostinfo = (hostname, some port) := by
  have hat : '@' ∉ hostname ++ ':' :: port := by
    simp [hhost.not_mem (c := '@') (by decide), hport.not_mem (c := '@') (by decide)]
  unfold ParseResult.hostinfo
  rw [hnetloc, rpartition_append _ hat]
  dsimp only [Option.map_some, Option.getD_some]
  rw [partition_append (hhost.not_mem (by decide))]
  simp [hne]

theorem port_eq {result : ParseResult} {port : ℕ}
    (h : result.hostinfo.2 = some (Nat.toDigits 10 port)) (hport : port ≤ 65535) :
    result.port = some (some port) := by
  have hdigits : (Nat.toDigits 10 port).all Char.isDigit = true :=
    List.all_eq_true.mpr fun c hc => Nat.isDigit_of_mem_toDigits (by decide) (by decide) hc
  unfold ParseResult.port
  rw [h]
  simp [hdigits, Nat.ofDigitChars_ten_toDigits, hport]

/-- A pair with an empty value is left out. -/
theorem nameValue_eq {replace : Bytes → List Char} {name value : List Char}
    (hname : ∀ c ∈ name, isUnreserved c = true) (hvalue : Quoted value) :
    nameValue replace (name ++ '=' :: value) =
      if value = [] then [] else [(name, unquote replace value)] := by
  have hquoted : Quoted name := fun c hc => by simp [isQuoted, hname c hc]
  unfold nameValue
  rw [partition_append (hquoted.not_mem (by decide))]
  dsimp only
  rw [hquoted.unquotePlus, hvalue.unquotePlus, unquote_unreserved replace hname]

theorem parseQs_cons {replace : Bytes → List Char} {pair query : List Char} (h : '&' ∉ pair) :
    parseQs replace (pair ++ '&' :: query) = nameValue replace pair ++ parseQs replace query := by
  rw [parseQs, List.splitOn_append_cons_self_of_not_mem h]
  rfl

theorem parseQs_last {replace : Bytes → List Char} {pair : List Char} (h : '&' ∉ pair) :
    parseQs replace pair = nameValue replace pair := by
  rw [parseQs, List.splitOn_eq_singleton h, List.flatMap_singleton]

end RethinkDB.Lib.Url
