import RethinkDB.Handshake.Attributes
import RethinkDB.Lib.JsonText

/-! The JSON texts between client and server. -/
namespace RethinkDB.Handshake
open RethinkDB.Lib

def AsciiText (s : String) : Prop := ∀ c ∈ s.toList, c.toNat < 128

instance (s : String) : Decidable (AsciiText s) :=
  List.decidableBAll (fun c : Char => c.toNat < 128) s.toList

/-- An ASCII text, a number or a Boolean, under a name that the client's decoder passes over. -/
def PlainField (field : String × Json) : Prop :=
  AsciiText field.1 ∧ field.1 ≠ "$reql_type$" ∧
    match field.2 with
    | .str s => AsciiText s
    | .int _ | .bool _ => True
    | _ => False

theorem plainField_str {name s : String} (hname : AsciiText name ∧ name ≠ "$reql_type$")
    (hs : AsciiText s) : PlainField (name, .str s) := ⟨hname.1, hname.2, hs⟩

theorem plainField_int {name : String} (hname : AsciiText name ∧ name ≠ "$reql_type$") (n : ℤ) :
    PlainField (name, .int n) := ⟨hname.1, hname.2, trivial⟩

theorem plainField_bool {name : String} (hname : AsciiText name ∧ name ≠ "$reql_type$") (b : Bool) :
    PlainField (name, .bool b) := ⟨hname.1, hname.2, trivial⟩

/-- The objects the two sides exchange. -/
def Plain (fields : List (String × Json)) : Prop :=
  (fields.map Prod.fst).Nodup ∧ ∀ field ∈ fields, PlainField field

/-- What JSON promises of the texts that go from an encoder to a decoder. -/
structure Codec (jsonEncode : Json → String) (jsonDecode : String → Except String Json) : Prop where
  reads : ∀ fields, Plain fields → jsonDecode (jsonEncode (.obj fields)) = .ok (.obj fields)
  escapes : ∀ fields, Plain fields → ∀ c ∈ (jsonEncode (.obj fields)).toList,
    0 < c.toNat ∧ c.toNat < 128

/-- ASCII bytes are one text, however they are read. -/
theorem ascii_text {bs : Bytes} (h : Ascii bs) : ∃ s, AsciiText s ∧ asciiDecode bs = some s ∧
    utf8Decode bs = some s ∧ asciiEncode s = some bs ∧ utf8Encode s = bs := by
  obtain ⟨s, hs⟩ := asciiDecode_of_ascii h
  have hbytes := utf8Encode_asciiDecode hs
  have hencode := charEncode_asciiDecode le_rfl hs
  have htext : AsciiText s := by
    unfold charEncode at hencode
    split_ifs at hencode with hascii
    exact hascii
  exact ⟨s, htext, hs, hbytes ▸ utf8Decode_encode s, hencode, hbytes⟩

theorem takeWhile_null {s : String} (h : ∀ c ∈ s.toList, 0 < c.toNat ∧ c.toNat < 128) :
    (utf8Encode s ++ [0]).takeWhile (· ≠ 0) = utf8Encode s := by
  have hbytes : ∀ b ∈ utf8Encode s, decide (b ≠ 0) = true := by
    rw [utf8Encode_of_ascii fun c hc => (h c hc).2]
    intro b hb
    obtain ⟨c, hc, rfl⟩ := List.mem_map.mp hb
    obtain ⟨hpos, hlt⟩ := h c hc
    rw [decide_eq_true_eq]
    intro hzero
    have hnat := congrArg UInt8.toNat hzero
    rw [UInt8.toNat_ofNat', UInt8.toNat_zero] at hnat
    omega
  rw [List.takeWhile_append_of_pos hbytes]
  simp

section Codec
variable {C : Client} {S : Server} {fields : List (String × Json)}

/-- What a server reads of what the client writes. -/
theorem authentication_jsonEncode (hto : Codec C.jsonEncode S.jsonDecode) (hplain : Plain fields)
    {s : String} (hs : fields.lookup "authentication" = some (.str s)) :
    S.authentication (utf8Encode (C.jsonEncode (.obj fields)) ++ [0]) = some (utf8Encode s) := by
  unfold Server.authentication
  rw [takeWhile_null (hto.escapes fields hplain), utf8Decode_encode]
  simp only [Option.bind_eq_bind, Option.bind_some, hto.reads fields hplain, hs]

theorem decodeText_respond (fields : List (String × Json)) :
    Client.decodeText (some (S.respond fields)) =
      .ok (some (S.jsonEncode (.obj (("success", .bool true) :: fields)))) := by
  rw [Client.decodeText, Server.respond, utf8Decode_encode]
  rfl

/-- What the client reads of what a server writes. -/
theorem decodeJsonResponse_respond (hfrom : Codec S.jsonEncode C.jsonDecode)
    (hplain : Plain (("success", .bool true) :: fields)) :
    C.decodeJsonResponse (some (S.jsonEncode (.obj (("success", .bool true) :: fields)))) =
      .ok (.obj (("success", .bool true) :: fields)) := by
  have hdecode : C.decodeJson (S.jsonEncode (.obj (("success", .bool true) :: fields))) =
      .ok (.obj (("success", .bool true) :: fields)) := by
    rw [Client.decodeJson, hfrom.reads _ hplain]
  change (C.decodeJson _ >>= _) = _
  rw [hdecode]
  rfl

theorem plain_authentication {s : String} (h : AsciiText s) :
    Plain [("success", .bool true), ("authentication", .str s)] := by
  refine ⟨by simp, ?_⟩
  simp only [List.forall_mem_cons]
  exact ⟨plainField_bool (by decide) true, plainField_str (by decide) h, by simp⟩

theorem plain_request {s : String} (h : AsciiText s) : Plain [("authentication", .str s)] := by
  refine ⟨by simp, ?_⟩
  simp only [List.forall_mem_cons]
  exact ⟨plainField_str (by decide) h, by simp⟩

/-- An `authentication` with attributes comes through to the client. -/
theorem respondWith_attributes (hfrom : Codec S.jsonEncode C.jsonDecode)
    {first : UInt8 × Bytes} {rest : List (UInt8 × Bytes)} (h : Attributes (first :: rest)) :
    ∃ response text json, S.respondWith (message first rest) = some response ∧
      Client.decodeText (some response) = .ok (some text) ∧
      C.decodeJsonResponse (some text) = .ok json ∧
      authenticationOf json =
        .ok (message first rest, (first :: rest).map fun x => ([x.1], x.2)) := by
  obtain ⟨s, htext, -, hutf8, hencode, -⟩ := ascii_text (ascii_message h)
  refine ⟨S.respond [("authentication", .str s)], _, _, ?_, decodeText_respond _,
    decodeJsonResponse_respond hfrom (plain_authentication htext), ?_⟩
  · rw [Server.respondWith, hutf8]
    rfl
  · have hbytes : encodeAscii (.str s) = .ok (message first rest) := by rw [encodeAscii, hencode, require]
    simp only [authenticationOf, bind_eq_ok, require_eq_ok]
    exact ⟨.str s, rfl, message first rest, hbytes, _, attributes_message h, rfl⟩

end Codec

/-! ### Python's `json` -/

def jsonEncode (floatRepr : PyFloat → List Char) (json : Json) : String :=
  .ofList (json.render floatRepr)

def jsonDecode (text : String) : Except String Json :=
  match Json.loads text.toList with
  | some json => .ok json
  | none => .error "Expecting value"

/-- What stays clear of the null byte and of what is not ASCII. -/
def Clear (cs : List Char) : Prop := ∀ c ∈ cs, 0 < c.toNat ∧ c.toNat < 128

instance (cs : List Char) : Decidable (Clear cs) :=
  List.decidableBAll (fun c : Char => 0 < c.toNat ∧ c.toNat < 128) cs

theorem clear_append {cs ds : List Char} (hcs : Clear cs) (hds : Clear ds) : Clear (cs ++ ds) :=
  fun c hc => (List.mem_append.mp hc).elim (hcs c) (hds c)

theorem clear_cons {c : Char} (hc : 0 < c.toNat ∧ c.toNat < 128) {cs : List Char} (hcs : Clear cs) :
    Clear (c :: cs) := by
  intro d hd
  rcases List.mem_cons.mp hd with rfl | hd
  · exact hc
  · exact hcs d hd

theorem clear_renderString {s : String} (h : AsciiText s) : Clear (Json.renderString s) := by
  have hall : ∀ n : Fin 128, Clear (Json.escape (Char.ofNat n)) := by decide +kernel
  refine clear_cons (by decide) (clear_append ?_ (clear_cons (by decide) nofun))
  intro c hc
  obtain ⟨d, hd, hc⟩ := List.mem_flatMap.mp hc
  have hescape := hall ⟨d.toNat, h d hd⟩ c
  rw [Char.ofNat_toNat] at hescape
  exact hescape hc

theorem clear_toDigits (n : ℕ) : Clear (Nat.toDigits 10 n) := by
  intro c hc
  have hdigit := Nat.isDigit_of_mem_toDigits (by decide) (by decide) hc
  simp only [Char.isDigit, Bool.and_eq_true, decide_eq_true_eq, ge_iff_le, UInt32.le_iff_toNat_le]
    at hdigit
  change 48 ≤ c.toNat ∧ c.toNat ≤ 57 at hdigit
  omega

variable {floatRepr : PyFloat → List Char}

theorem clear_value {name : String} {value : Json} (h : PlainField (name, value)) :
    Clear (value.render floatRepr) := by
  obtain ⟨-, -, hvalue⟩ := h
  cases value with
  | str s => exact clear_renderString hvalue
  | bool b =>
    cases b
    · rw [Json.render]
      decide
    · rw [Json.render]
      decide
  | int n =>
    cases n with
    | ofNat n => exact clear_toDigits n
    | negSucc n => exact clear_cons (by decide) (clear_toDigits (n + 1))
  | null => exact hvalue.elim
  | float _ => exact hvalue.elim
  | arr _ => exact hvalue.elim
  | obj _ => exact hvalue.elim

theorem clear_renderFields {fields : List (String × Json)} (h : ∀ field ∈ fields, PlainField field) :
    Clear (Json.renderFields floatRepr fields) := by
  induction fields with
  | nil => exact clear_cons (by decide) nofun
  | cons field fields ih =>
    have hfield := h field (by simp)
    exact clear_cons (by decide) (clear_append (clear_renderString hfield.1) (clear_cons (by decide)
      (clear_append (clear_value hfield) (ih fun field h' => h field (by simp [h'])))))

theorem clear_render {fields : List (String × Json)} (h : Plain fields) :
    Clear ((Json.obj fields).render floatRepr) := by
  cases fields with
  | nil => exact clear_cons (by decide) (clear_cons (by decide) nofun)
  | cons field fields =>
    obtain ⟨-, hfields⟩ := h
    have hclear : Clear (Json.renderFields floatRepr (field :: fields)) := clear_renderFields hfields
    rw [Json.renderFields] at hclear
    exact clear_cons (by decide) fun c hc => hclear c (List.mem_cons_of_mem _ hc)

theorem readable_plain {fields : List (String × Json)} (h : Plain fields) :
    Json.Readable (.obj fields) := by
  refine .obj h.1 fun field hfield => ?_
  obtain ⟨-, -, hvalue⟩ := h.2 field hfield
  obtain ⟨name, value⟩ := field
  cases value with
  | str s => exact .str s
  | bool b => exact .bool b
  | int n => exact .int n
  | null => exact hvalue.elim
  | float _ => exact hvalue.elim
  | arr _ => exact hvalue.elim
  | obj _ => exact hvalue.elim

/-- Python's `json` reads its own texts. -/
theorem codec_json (floatRepr : PyFloat → List Char) : Codec (jsonEncode floatRepr) jsonDecode := by
  constructor
  · intro fields h
    rw [jsonEncode, jsonDecode, String.toList_ofList, Json.loads_render floatRepr (readable_plain h)]
  · intro fields h
    rw [jsonEncode, String.toList_ofList]
    exact clear_render h

end RethinkDB.Handshake
