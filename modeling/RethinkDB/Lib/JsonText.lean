import Mathlib.Data.Char
import Mathlib.Data.List.Nodup
import RethinkDB.Lib.Json

/-! JSON text: the compact writer of Python's `json`, with characters left unescaped where JSON
allows it, and a reader for texts without fractions. -/
namespace RethinkDB.Lib.Json

/-! ### Writing -/

def escape (c : Char) : List Char :=
  if c = '"' then ['\\', '"']
  else if c = '\\' then ['\\', '\\']
  else if c = '\n' then ['\\', 'n']
  else if c = '\r' then ['\\', 'r']
  else if c = '\t' then ['\\', 't']
  else if c = '\x08' then ['\\', 'b']
  else if c = '\x0c' then ['\\', 'f']
  else if c.toNat < 32 then
    ['\\', 'u', '0', '0', Nat.digitChar (c.toNat / 16), Nat.digitChar (c.toNat % 16)]
  else [c]

def renderString (s : String) : List Char := '"' :: (s.toList.flatMap escape ++ ['"'])

def renderInt : ℤ → List Char
  | .ofNat n => Nat.toDigits 10 n
  | .negSucc n => '-' :: Nat.toDigits 10 (n + 1)

section Render
-- `float.__repr__`
variable (floatRepr : PyFloat → List Char)

mutual

def render : Json → List Char
  | null => ['n', 'u', 'l', 'l']
  | bool true => ['t', 'r', 'u', 'e']
  | bool false => ['f', 'a', 'l', 's', 'e']
  | int n => renderInt n
  | float x => floatRepr x
  | str s => renderString s
  | arr [] => ['[', ']']
  | arr (item :: items) => '[' :: (render item ++ renderItems items)
  | obj [] => ['{', '}']
  | obj ((name, value) :: fields) =>
    '{' :: (renderString name ++ ':' :: (render value ++ renderFields fields))

/-- The items after the first, with the closing bracket. -/
def renderItems : List Json → List Char
  | [] => [']']
  | item :: items => ',' :: (render item ++ renderItems items)

def renderFields : List (String × Json) → List Char
  | [] => ['}']
  | (name, value) :: fields =>
    ',' :: (renderString name ++ ':' :: (render value ++ renderFields fields))

end
end Render

/-! ### Writing with spaces -/

mutual

/-- `json.dumps`, of values without fractions: with a space after each comma and each colon. -/
def dumps : Json → List Char
  | arr (item :: items) => '[' :: (dumps item ++ dumpsItems items)
  | obj ((name, value) :: fields) =>
    '{' :: (renderString name ++ ':' :: ' ' :: (dumps value ++ dumpsFields fields))
  | value => render (fun _ => []) value

def dumpsItems : List Json → List Char
  | [] => [']']
  | item :: items => ',' :: ' ' :: (dumps item ++ dumpsItems items)

def dumpsFields : List (String × Json) → List Char
  | [] => ['}']
  | (name, value) :: fields =>
    ',' :: ' ' :: (renderString name ++ ':' :: ' ' :: (dumps value ++ dumpsFields fields))

end

/-! ### Reading -/

def isWhitespace (c : Char) : Bool := c = ' ' ∨ c = '\t' ∨ c = '\n' ∨ c = '\r'

def skip (cs : List Char) : List Char := cs.dropWhile isWhitespace

def hexValue (c : Char) : Option ℕ :=
  if '0' ≤ c ∧ c ≤ '9' then some (c.toNat - 48)
  else if 'a' ≤ c ∧ c ≤ 'f' then some (c.toNat - 87)
  else if 'A' ≤ c ∧ c ≤ 'F' then some (c.toNat - 55)
  else none

/-- The characters that stand for another one after a backslash. -/
def unescape : Char → Option Char
  | '"' => some '"'
  | '\\' => some '\\'
  | '/' => some '/'
  | 'n' => some '\n'
  | 'r' => some '\r'
  | 't' => some '\t'
  | 'b' => some '\x08'
  | 'f' => some '\x0c'
  | _ => none

/-- What follows an opening quote, up to the closing one. Surrogates are refused. -/
def parseString : List Char → Option (List Char × List Char)
  | [] => none
  | '"' :: cs => some ([], cs)
  | '\\' :: 'u' :: a :: b :: c :: d :: cs => do
    let n := (((← hexValue a) * 16 + (← hexValue b)) * 16 + (← hexValue c)) * 16 + (← hexValue d)
    if n.isValidChar then
      (parseString cs).map fun p => (Char.ofNat n :: p.1, p.2)
    else none
  | '\\' :: c :: cs => do
    let c ← unescape c
    (parseString cs).map fun p => (c :: p.1, p.2)
  | c :: cs => if c.toNat < 32 then none else (parseString cs).map fun p => (c :: p.1, p.2)

/-- Digits, of which the first is 0 only when it is the only one. -/
def parseNat : List Char → Option (ℕ × List Char)
  | '0' :: cs => some (0, cs)
  | cs =>
    let digits := cs.takeWhile Char.isDigit
    if digits = [] then none else some (Nat.ofDigitChars 10 digits 0, cs.dropWhile Char.isDigit)

/-- `dict(pairs)`: a later value replaces an earlier one in its place. -/
def insertField (fields : List (String × Json)) (field : String × Json) : List (String × Json) :=
  if field.1 ∈ fields.map Prod.fst then
    fields.map fun f => if f.1 = field.1 then (f.1, field.2) else f
  else fields ++ [field]

def dict (pairs : List (String × Json)) : List (String × Json) := pairs.foldl insertField []

mutual

/-- A value at the start of the text, with what follows it. -/
def parseValue : ℕ → List Char → Option (Json × List Char)
  | 0, _ => none
  | fuel + 1, cs => match cs with
    | 'n' :: 'u' :: 'l' :: 'l' :: rest => some (null, rest)
    | 't' :: 'r' :: 'u' :: 'e' :: rest => some (bool true, rest)
    | 'f' :: 'a' :: 'l' :: 's' :: 'e' :: rest => some (bool false, rest)
    | '"' :: cs => (parseString cs).map fun p => (str (.ofList p.1), p.2)
    | '[' :: cs => match skip cs with
      | ']' :: rest => some (arr [], rest)
      | cs => (parseItems fuel cs).map fun p => (arr p.1, p.2)
    | '{' :: cs => match skip cs with
      | '}' :: rest => some (obj [], rest)
      | cs => (parseFields fuel cs).map fun p => (obj (dict p.1), p.2)
    | '-' :: cs => (parseNat cs).map fun p => (int (-p.1), p.2)
    | cs => (parseNat cs).map fun p => (int p.1, p.2)

def parseItems : ℕ → List Char → Option (List Json × List Char)
  | 0, _ => none
  | fuel + 1, cs => do
    let (item, rest) ← parseValue fuel cs
    match skip rest with
    | ']' :: rest => return ([item], rest)
    | ',' :: rest => (parseItems fuel (skip rest)).map fun p => (item :: p.1, p.2)
    | _ => none

def parseFields : ℕ → List Char → Option (List (String × Json) × List Char)
  | fuel + 1, '"' :: cs => do
    let (name, rest) ← parseString cs
    match skip rest with
    | ':' :: rest => do
      let (value, rest) ← parseValue fuel (skip rest)
      match skip rest with
      | '}' :: rest => return ([(.ofList name, value)], rest)
      | ',' :: rest =>
        (parseFields fuel (skip rest)).map fun p => ((.ofList name, value) :: p.1, p.2)
      | _ => none
    | _ => none
  | _, _ => none

end

/-- `json.loads`. -/
def loads (cs : List Char) : Option Json := do
  let (json, rest) ← parseValue (cs.length + 1) (skip cs)
  if skip rest = [] then some json else none

/-! ### What is written is read back -/

/-- Values whose text determines them: without floats, and with dicts for objects. -/
inductive Readable : Json → Prop where
  | null : Readable null
  | bool (b : Bool) : Readable (bool b)
  | int (n : ℤ) : Readable (int n)
  | str (s : String) : Readable (str s)
  | arr {items : List Json} (hitems : ∀ item ∈ items, Readable item) : Readable (arr items)
  | obj {fields : List (String × Json)} (hnodup : (fields.map Prod.fst).Nodup)
      (hfields : ∀ field ∈ fields, Readable field.2) : Readable (obj fields)

theorem hexValue_digitChar {n : ℕ} (hn : n < 16) : hexValue (Nat.digitChar n) = some n := by
  have hall : ∀ n : Fin 16, hexValue (Nat.digitChar n) = some n.val := by decide
  exact hall ⟨n, hn⟩

theorem parseString_escape (c : Char) (cs : List Char) :
    parseString (escape c ++ cs) = (parseString cs).map fun p => (c :: p.1, p.2) := by
  unfold escape
  split_ifs with hquote hslash hn hr ht hb hf hcontrol
  any_goals
    subst c
    rfl
  · have hhigh : hexValue (Nat.digitChar (c.toNat / 16)) = some (c.toNat / 16) :=
      hexValue_digitChar (by omega)
    have hlow : hexValue (Nat.digitChar (c.toNat % 16)) = some (c.toNat % 16) :=
      hexValue_digitChar (by omega)
    have hzero : hexValue '0' = some 0 := rfl
    have hn : ((0 * 16 + 0) * 16 + c.toNat / 16) * 16 + c.toNat % 16 = c.toNat := by omega
    have hvalid : c.toNat.isValidChar := c.valid
    simp only [List.cons_append, List.nil_append]
    rw [parseString]
    simp only [hhigh, hlow, hzero, Option.bind_eq_bind, Option.bind_some, hn, hvalid, if_true,
      Char.ofNat_toNat]
  · rw [List.singleton_append, parseString.eq_def]
    split
    · cases ‹_›
    · simp_all
    · simp_all
    · simp_all
    · rename_i h
      obtain ⟨rfl, rfl⟩ := List.cons.inj h
      rw [if_neg hcontrol]

theorem parseString_escapes (s rest : List Char) :
    parseString (s.flatMap escape ++ '"' :: rest) = some (s, rest) := by
  induction s with
  | nil => rfl
  | cons c s ih =>
    rw [List.flatMap_cons, List.append_assoc, parseString_escape, ih]
    rfl

theorem renderString_append (s : String) (rest : List Char) :
    renderString s ++ rest = '"' :: (s.toList.flatMap escape ++ '"' :: rest) := by
  simp [renderString]

/-- Text that does not continue a number. -/
def Follows (rest : List Char) : Prop := ∀ c ∈ rest.head?, c.isDigit = false

theorem toDigits_ne_nil (n : ℕ) : Nat.toDigits 10 n ≠ [] := Nat.toDigits_ne_nil

/-- A number other than 0 is not written with a leading 0. -/
theorem eq_zero_of_toDigits {n : ℕ} {cs : List Char} (h : Nat.toDigits 10 n = '0' :: cs) : n = 0 := by
  induction n using Nat.strong_induction_on generalizing cs with
  | _ n ih =>
    by_cases hlt : n < 10
    · rw [Nat.toDigits_of_lt_base hlt] at h
      have hall : ∀ n : Fin 10, Nat.digitChar n = '0' → n.val = 0 := by decide
      exact hall ⟨n, hlt⟩ (List.cons.inj h).1
    · rw [Nat.toDigits_of_base_le (by decide) (by omega)] at h
      obtain hnil | ⟨cs', hcs', -⟩ := List.append_eq_cons_iff.mp h
      · exact absurd hnil.1 Nat.toDigits_ne_nil
      · have := ih (n / 10) (by omega) hcs'
        omega

theorem parseNat_toDigits (n : ℕ) {rest : List Char} (hrest : Follows rest) :
    parseNat (Nat.toDigits 10 n ++ rest) = some (n, rest) := by
  have hdigits : ∀ c ∈ Nat.toDigits 10 n, c.isDigit = true :=
    fun c hc => Nat.isDigit_of_mem_toDigits (by decide) (by decide) hc
  have hspan : rest.takeWhile Char.isDigit = [] ∧ rest.dropWhile Char.isDigit = rest := by
    cases rest with
    | nil => exact ⟨rfl, rfl⟩
    | cons c rest =>
      have hc : c.isDigit = false := hrest c rfl
      simp [List.takeWhile, List.dropWhile, hc]
  unfold parseNat
  split
  · rename_i cs h
    obtain ⟨hnil, -⟩ | ⟨cs', hcs', rfl⟩ := List.append_eq_cons_iff.mp h
    · exact absurd hnil Nat.toDigits_ne_nil
    · obtain rfl := eq_zero_of_toDigits hcs'
      cases hcs'
      rfl
  · rw [List.takeWhile_append_of_pos hdigits, List.dropWhile_append_of_pos hdigits, hspan.1, hspan.2,
      List.append_nil]
    simp only [Nat.toDigits_ne_nil, if_false, Nat.ofDigitChars_ten_toDigits]

section Values
variable {floatRepr : PyFloat → List Char}

/-- What is to be shown of a value: its text is read, and no more than its text. -/
def Reads (floatRepr : PyFloat → List Char) (json : Json) : Prop :=
  ∀ fuel rest, (render floatRepr json).length ≤ fuel → Follows rest →
    parseValue fuel (render floatRepr json ++ rest) = some (json, rest)

theorem skip_cons {c : Char} (hc : isWhitespace c = false) (cs : List Char) : skip (c :: cs) = c :: cs := by
  simp [skip, List.dropWhile, hc]

theorem renderInt_head (n : ℤ) : ∃ c cs, renderInt n = c :: cs ∧ (c.isDigit = true ∨ c = '-') := by
  cases n with
  | ofNat n =>
    obtain ⟨c, cs, hcs⟩ := List.exists_cons_of_ne_nil (toDigits_ne_nil n)
    have hc : c ∈ Nat.toDigits 10 n := hcs ▸ List.mem_cons_self
    exact ⟨c, cs, hcs, .inl (Nat.isDigit_of_mem_toDigits (by decide) (by decide) hc)⟩
  | negSucc n => exact ⟨'-', _, rfl, .inr rfl⟩

theorem isWhitespace_of_isDigit {c : Char} (hc : c.isDigit = true ∨ c = '-') :
    isWhitespace c = false ∧ c ≠ ']' ∧ c ≠ '}' := by
  refine ⟨?_, ?_, ?_⟩
  · by_contra hspace
    simp only [isWhitespace, Bool.not_eq_false, decide_eq_true_eq] at hspace
    rcases hspace with rfl | rfl | rfl | rfl <;> simp at hc
  · rintro rfl
    simp at hc
  · rintro rfl
    simp at hc

/-- A value starts with something that is neither space nor a closing bracket. -/
theorem render_head (floatRepr : PyFloat → List Char) {json : Json} (h : Readable json) :
    ∃ c cs, render floatRepr json = c :: cs ∧ isWhitespace c = false ∧ c ≠ ']' ∧ c ≠ '}' := by
  cases h with
  | null => exact ⟨'n', _, rfl, by decide⟩
  | bool b => cases b <;> exact ⟨_, _, rfl, by decide⟩
  | int n =>
    obtain ⟨c, cs, hcs, hc⟩ := renderInt_head n
    exact ⟨c, cs, hcs, isWhitespace_of_isDigit hc⟩
  | str s => exact ⟨'"', _, rfl, by decide⟩
  | @arr items _ => cases items <;> exact ⟨'[', _, by rw [render], by decide⟩
  | @obj fields _ _ =>
    cases fields with
    | nil => exact ⟨'{', _, by rw [render], by decide⟩
    | cons field fields => exact ⟨'{', _, by rw [render], by decide⟩

theorem skip_render {json : Json} (h : Readable json) (rest : List Char) :
    skip (render floatRepr json ++ rest) = render floatRepr json ++ rest := by
  obtain ⟨c, cs, hcs, hspace, -, -⟩ := render_head floatRepr h
  rw [hcs, List.cons_append, skip_cons hspace]

theorem parseValue_digit {c : Char} (hc : c.isDigit = true) (fuel : ℕ) (cs : List Char) :
    parseValue (fuel + 1) (c :: cs) = (parseNat (c :: cs)).map fun p => (int p.1, p.2) := by
  rw [parseValue.eq_def]
  split
  · cases ‹_›
  · rename_i h
    cases h
    split
    any_goals
      rename_i h
      cases h
      simp at hc
    rfl

theorem reads_int (n : ℤ) : Reads floatRepr (int n) := by
  intro fuel rest hfuel hrest
  cases fuel with
  | zero =>
    obtain ⟨c, cs, hcs, -⟩ := renderInt_head n
    rw [render, hcs] at hfuel
    cases hfuel
  | succ fuel =>
    cases n with
    | ofNat n =>
      obtain ⟨c, cs, hcs⟩ := List.exists_cons_of_ne_nil (toDigits_ne_nil n)
      have hc : c ∈ Nat.toDigits 10 n := hcs ▸ List.mem_cons_self
      have hdigit := Nat.isDigit_of_mem_toDigits (by decide) (by decide) hc
      rw [render, renderInt, hcs, List.cons_append, parseValue_digit hdigit, ← List.cons_append, ← hcs,
        parseNat_toDigits n hrest]
      rfl
    | negSucc n =>
      rw [render, renderInt, List.cons_append, parseValue, parseNat_toDigits (n + 1) hrest]
      rfl

theorem follows_cons {c : Char} (hc : c.isDigit = false) (cs : List Char) : Follows (c :: cs) := by
  rintro _ ⟨⟩
  exact hc

/-- What closes or goes on with a list of items follows any value. -/
theorem follows_renderItems (items : List Json) (rest : List Char) :
    Follows (renderItems floatRepr items ++ rest) := by
  cases items <;> exact follows_cons (by decide) _

theorem follows_renderFields (fields : List (String × Json)) (rest : List Char) :
    Follows (renderFields floatRepr fields ++ rest) := by
  cases fields <;> exact follows_cons (by decide) _

theorem length_renderItems_pos (floatRepr : PyFloat → List Char) (items : List Json) :
    0 < (renderItems floatRepr items).length := by
  cases items <;> simp [renderItems]

theorem length_renderFields_pos (floatRepr : PyFloat → List Char) (fields : List (String × Json)) :
    0 < (renderFields floatRepr fields).length := by
  cases fields <;> simp [renderFields]

theorem length_render_pos (floatRepr : PyFloat → List Char) {json : Json} (h : Readable json) :
    0 < (render floatRepr json).length := by
  obtain ⟨c, cs, hcs, -⟩ := render_head floatRepr h
  simp [hcs]

theorem parseItems_render {items : List Json} {item : Json} (hitem : Readable item ∧ Reads floatRepr item)
    (hitems : ∀ item ∈ items, Readable item ∧ Reads floatRepr item) (fuel : ℕ)
    (rest : List Char)
    (hfuel : (render floatRepr item).length + (renderItems floatRepr items).length ≤ fuel) :
    parseItems fuel (render floatRepr item ++ (renderItems floatRepr items ++ rest)) =
      some (item :: items, rest) := by
  have htail := length_renderItems_pos floatRepr items
  have hhead := length_render_pos floatRepr hitem.1
  induction items generalizing item fuel with
  | nil =>
    obtain ⟨fuel, rfl⟩ : ∃ m, fuel = m + 1 := ⟨fuel - 1, by omega⟩
    have hread := hitem.2 fuel (renderItems floatRepr [] ++ rest) (by omega) (follows_renderItems _ _)
    rw [parseItems, hread]
    rfl
  | cons next items ih =>
    obtain ⟨fuel, rfl⟩ : ∃ m, fuel = m + 1 := ⟨fuel - 1, by omega⟩
    have hread := hitem.2 fuel (renderItems floatRepr (next :: items) ++ rest) (by omega)
      (follows_renderItems _ _)
    have hnext := hitems next (by simp)
    rw [renderItems, List.length_cons, List.length_append] at hfuel
    have hrest := ih hnext (fun item h => hitems item (by simp [h])) fuel (by omega)
      (length_renderItems_pos floatRepr items) (length_render_pos floatRepr hnext.1)
    rw [parseItems, hread]
    simp only [Option.bind_eq_bind, Option.bind_some, renderItems, List.cons_append, List.append_assoc]
    rw [skip_cons (by decide)]
    simp only [skip_render hnext.1, hrest]
    rfl

theorem parseFields_render {fields : List (String × Json)} (name : String) {value : Json}
    (hvalue : Readable value ∧ Reads floatRepr value)
    (hfields : ∀ field ∈ fields, Readable field.2 ∧ Reads floatRepr field.2) (fuel : ℕ)
    (rest : List Char)
    (hfuel : (render floatRepr value).length + (renderFields floatRepr fields).length ≤ fuel) :
    parseFields fuel (renderString name ++ ':' :: (render floatRepr value ++
      (renderFields floatRepr fields ++ rest))) = some ((name, value) :: fields, rest) := by
  have htail := length_renderFields_pos floatRepr fields
  have hhead := length_render_pos floatRepr hvalue.1
  induction fields generalizing name value fuel with
  | nil =>
    obtain ⟨fuel, rfl⟩ : ∃ m, fuel = m + 1 := ⟨fuel - 1, by omega⟩
    have hread := hvalue.2 fuel (renderFields floatRepr [] ++ rest) (by omega)
      (follows_renderFields _ _)
    rw [renderString_append, parseFields, parseString_escapes]
    simp only [Option.bind_eq_bind, Option.bind_some]
    rw [skip_cons (by decide)]
    simp only [skip_render hvalue.1, hread, Option.bind_some, String.ofList_toList]
    rfl
  | cons next fields ih =>
    obtain ⟨fuel, rfl⟩ : ∃ m, fuel = m + 1 := ⟨fuel - 1, by omega⟩
    have hread := hvalue.2 fuel (renderFields floatRepr (next :: fields) ++ rest) (by omega)
      (follows_renderFields _ _)
    have hnext := hfields next (by simp)
    rw [renderFields, List.length_cons, List.length_append, List.length_cons, List.length_append]
      at hfuel
    have hrest := ih next.1 hnext (fun field h => hfields field (by simp [h])) fuel (by omega)
      (length_renderFields_pos floatRepr fields) (length_render_pos floatRepr hnext.1)
    rw [renderString_append, parseFields, parseString_escapes]
    simp only [Option.bind_eq_bind, Option.bind_some]
    rw [skip_cons (by decide)]
    simp only [skip_render hvalue.1, hread, Option.bind_some, String.ofList_toList]
    simp only [renderFields, List.cons_append, List.append_assoc]
    rw [skip_cons (by decide)]
    have hskip : ∀ cs, skip (renderString next.1 ++ cs) = renderString next.1 ++ cs := by
      intro cs
      rw [renderString_append, skip_cons (by decide)]
    simp only [hskip, hrest]
    rfl

theorem foldl_insertField {fields acc : List (String × Json)}
    (h : ((acc ++ fields).map Prod.fst).Nodup) : fields.foldl insertField acc = acc ++ fields := by
  induction fields generalizing acc with
  | nil => simp
  | cons field fields ih =>
    have hnew : field.1 ∉ acc.map Prod.fst := by
      rw [List.map_append, List.nodup_append'] at h
      exact fun hmem => h.2.2 hmem (by simp)
    rw [List.foldl_cons, insertField, if_neg hnew, ih (by simpa using h), List.append_assoc]
    rfl

theorem dict_of_nodup {fields : List (String × Json)} (h : (fields.map Prod.fst).Nodup) :
    dict fields = fields := foldl_insertField h

/-- There is always fuel for the first token. -/
theorem reads_of_succ {json : Json} (h : Readable json)
    (hs : ∀ fuel rest, (render floatRepr json).length ≤ fuel + 1 →
      parseValue (fuel + 1) (render floatRepr json ++ rest) = some (json, rest)) :
    Reads floatRepr json := by
  intro fuel rest hfuel _
  have hpos := length_render_pos floatRepr h
  obtain ⟨fuel, rfl⟩ : ∃ m, fuel = m + 1 := ⟨fuel - 1, by omega⟩
  exact hs fuel rest hfuel

theorem reads_arr {items : List Json} (hitems : ∀ item ∈ items, Readable item)
    (ih : ∀ item ∈ items, Reads floatRepr item) : Reads floatRepr (arr items) := by
  refine reads_of_succ (.arr hitems) fun fuel rest hfuel => ?_
  cases items with
  | nil =>
    rw [render, List.cons_append, parseValue, List.singleton_append, skip_cons (by decide)]
    rfl
  | cons item items =>
    have hitem : Readable item ∧ Reads floatRepr item := ⟨hitems item (by simp), ih item (by simp)⟩
    rw [render, List.length_cons, List.length_append] at hfuel
    have hothers : ∀ item ∈ items, Readable item ∧ Reads floatRepr item :=
      fun item h => ⟨hitems item (by simp [h]), ih item (by simp [h])⟩
    have hparse := parseItems_render hitem hothers fuel rest (by omega)
    rw [render, List.cons_append, parseValue, List.append_assoc, skip_render hitem.1]
    obtain ⟨c, cs, hcs, -, hc, -⟩ := render_head floatRepr hitem.1
    split
    · rename_i h
      rw [hcs] at h
      exact absurd (List.cons.inj h).1 hc
    · rw [hparse]
      rfl

theorem reads_obj {fields : List (String × Json)} (hnodup : (fields.map Prod.fst).Nodup)
    (hfields : ∀ field ∈ fields, Readable field.2) (ih : ∀ field ∈ fields, Reads floatRepr field.2) :
    Reads floatRepr (obj fields) := by
  refine reads_of_succ (.obj hnodup hfields) fun fuel rest hfuel => ?_
  cases fields with
  | nil =>
    rw [render, List.cons_append, parseValue, List.singleton_append, skip_cons (by decide)]
    rfl
  | cons field fields =>
    have hvalue : Readable field.2 ∧ Reads floatRepr field.2 :=
      ⟨hfields field (by simp), ih field (by simp)⟩
    rw [render, List.length_cons, List.length_append, List.length_cons, List.length_append] at hfuel
    have hothers : ∀ field ∈ fields, Readable field.2 ∧ Reads floatRepr field.2 :=
      fun field h => ⟨hfields field (by simp [h]), ih field (by simp [h])⟩
    have hparse := parseFields_render field.1 hvalue hothers fuel rest (by omega)
    rw [render, List.cons_append, parseValue]
    simp only [List.append_assoc, List.cons_append]
    rw [renderString_append, skip_cons (by decide), ← renderString_append]
    split
    · rename_i h
      rw [renderString_append] at h
      cases (List.cons.inj h).1
    · rw [hparse, Option.map_some, dict_of_nodup hnodup]

theorem reads {json : Json} (h : Readable json) : Reads floatRepr json := by
  induction h with
  | null => exact reads_of_succ .null fun fuel rest _ => by simp [render, parseValue]
  | bool b =>
    refine reads_of_succ (.bool b) fun fuel rest _ => ?_
    cases b <;> simp [render, parseValue]
  | int n => exact reads_int n
  | str s =>
    refine reads_of_succ (.str s) fun fuel rest _ => ?_
    rw [render, renderString_append, parseValue, parseString_escapes, Option.map_some,
      String.ofList_toList]
  | arr hitems ih => exact reads_arr hitems ih
  | obj hnodup hfields ih => exact reads_obj hnodup hfields ih

/-- The round trip. -/
theorem loads_render (floatRepr : PyFloat → List Char) {json : Json} (h : Readable json) :
    loads (render floatRepr json) = some json := by
  have hread := reads h _ [] (Nat.le_succ (render floatRepr json).length) nofun
  have hskip : skip (render floatRepr json ++ []) = render floatRepr json ++ [] := skip_render h []
  rw [List.append_nil] at hread hskip
  rw [loads, hskip, hread]
  rfl

theorem render_injective (floatRepr : PyFloat → List Char) {json json' : Json} (h : Readable json)
    (h' : Readable json') (heq : render floatRepr json = render floatRepr json') : json = json' := by
  have hloads := loads_render floatRepr h
  rw [heq, loads_render floatRepr h'] at hloads
  exact (Option.some.inj hloads).symm

end Values

end RethinkDB.Lib.Json
