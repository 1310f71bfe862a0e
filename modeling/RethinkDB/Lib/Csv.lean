import Mathlib.Data.List.Basic
import RethinkDB.Lib.Prog

/-! Comma-separated values as Python's `csv` writes and reads them in its default dialect, and the
lines of `str.splitlines` that the reader is given. -/
namespace RethinkDB.Lib

/-- The characters at which `str.splitlines` breaks, apart from carriage return. -/
def isLineBreak (c : Char) : Bool :=
  c ∈ ['\n', '\x0b', '\x0c', '\x1c', '\x1d', '\x1e', '\u0085', '\u2028', '\u2029']

/-- `text.splitlines(keepends=True)`. -/
def splitlines : List Char → List (List Char)
  | [] => []
  | '\r' :: '\n' :: cs => ['\r', '\n'] :: splitlines cs
  | c :: cs =>
    if c = '\r' ∨ isLineBreak c then [c] :: splitlines cs
    else match splitlines cs with
      | [] => [[c]]
      | line :: lines => (c :: line) :: lines

theorem flatten_splitlines (text : List Char) : (splitlines text).flatten = text := by
  fun_induction splitlines text with
  | case1 => rfl
  | case2 cs ih => simp [ih]
  | case3 c cs _ _ ih => simp [ih]
  | case4 c cs _ _ hlines ih =>
    rw [hlines] at ih
    simpa using ih
  | case5 c cs _ _ line lines hlines ih =>
    rw [hlines] at ih
    simpa using ih

theorem splitlines_eq_nil {text : List Char} : splitlines text = [] ↔ text = [] := by
  constructor
  · intro h
    rw [← flatten_splitlines text, h]
    rfl
  · rintro rfl
    rfl

namespace Csv

/-- The states of the parser that the default dialect reaches. -/
inductive State where
  | startRecord
  | startField
  | inField
  | inQuotedField
  | quoteInQuotedField
  | eatCrnl
  deriving Repr, DecidableEq

inductive Error where
  | fieldLimit (limit : ℕ)
  | newLine
  deriving Repr, DecidableEq

/-- The parser: the characters of the current field, and the fields before it. -/
structure Reader where
  state : State
  field : List Char
  fields : List (List Char)
  deriving Repr, DecidableEq

namespace Reader

/-- `parse_reset`. -/
def start : Reader := ⟨.startRecord, [], []⟩

def enter (state : State) (r : Reader) : Reader := { r with state }

/-- `parse_save_field`. -/
def saveField (r : Reader) : Reader := { r with field := [], fields := r.fields ++ [r.field] }

section Parser
variable (limit : ℕ)

/-- `parse_add_char`. -/
def addChar (c : Char) (r : Reader) : Except Error Reader :=
  if limit ≤ r.field.length then .error (.fieldLimit limit)
  else .ok { r with field := r.field ++ [c] }

def startField (delimiter : Char) (c : Char) (r : Reader) : Except Error Reader :=
  if c = '\n' ∨ c = '\r' then .ok (r.saveField.enter .eatCrnl)
  else if c = '"' then .ok (r.enter .inQuotedField)
  else if c = delimiter then .ok (r.saveField.enter .startField)
  else (r.enter .inField).addChar limit c

/-- `parse_process_char`. -/
def processChar (delimiter : Char) (c : Char) (r : Reader) : Except Error Reader :=
  match r.state with
  | .startRecord =>
    if c = '\n' ∨ c = '\r' then .ok (r.enter .eatCrnl) else startField limit delimiter c r
  | .startField => startField limit delimiter c r
  | .inField =>
    if c = '\n' ∨ c = '\r' then .ok (r.saveField.enter .eatCrnl)
    else if c = delimiter then .ok (r.saveField.enter .startField)
    else r.addChar limit c
  | .inQuotedField => if c = '"' then .ok (r.enter .quoteInQuotedField) else r.addChar limit c
  | .quoteInQuotedField =>
    if c = '"' then (r.enter .inQuotedField).addChar limit c
    else if c = delimiter then .ok (r.saveField.enter .startField)
    else if c = '\n' ∨ c = '\r' then .ok (r.saveField.enter .eatCrnl)
    else (r.enter .inField).addChar limit c
  | .eatCrnl => if c = '\n' ∨ c = '\r' then .ok r else .error .newLine

/-- `parse_process_char` at the end of a line. -/
def processEnd (r : Reader) : Reader :=
  match r.state with
  | .startRecord => r
  | .startField | .inField | .quoteInQuotedField => r.saveField.enter .startRecord
  | .inQuotedField => r
  | .eatCrnl => r.enter .startRecord

end Parser
end Reader

section Reading
variable (limit : ℕ) (delimiter : Char)

/-- A line, and its end. -/
def readLine : List Char → Reader → Except Error Reader
  | [], r => .ok r.processEnd
  | c :: cs, r => do readLine cs (← r.processChar limit delimiter c)

/-- `Reader_iternext` from the middle of a record on: the record, or nothing for `StopIteration`,
and the lines that are left. -/
def readRecord : List (List Char) → Reader →
    Except Error (Option (List (List Char))) × List (List Char)
  | [], r =>
    if r.field ≠ [] ∨ r.state = .inQuotedField then (.ok (some r.saveField.fields), [])
    else (.ok none, [])
  | line :: lines, r =>
    match readLine limit delimiter line r with
    | .error e => (.error e, lines)
    | .ok r => if r.state = .startRecord then (.ok (some r.fields), lines) else readRecord lines r

theorem readRecord_suffix (lines : List (List Char)) (r : Reader) :
    (readRecord limit delimiter lines r).2 <:+ lines := by
  induction lines generalizing r with
  | nil =>
    unfold readRecord
    split <;> exact List.suffix_rfl
  | cons line lines ih =>
    rw [readRecord]
    split
    · exact List.suffix_cons line lines
    · split
      · exact List.suffix_cons line lines
      · exact (ih _).trans (List.suffix_cons line lines)

/-- A record takes a line. -/
theorem readRecord_less {lines rest : List (List Char)} {record : List (List Char)}
    (h : readRecord limit delimiter lines .start = (.ok (some record), rest)) :
    rest.length < lines.length := by
  cases lines with
  | nil => cases h
  | cons line lines =>
    have hsuffix : (readRecord limit delimiter (line :: lines) .start).2 <:+ lines := by
      rw [readRecord]
      split
      · exact List.suffix_rfl
      · split
        · exact List.suffix_rfl
        · exact readRecord_suffix limit delimiter lines _
    rw [h] at hsuffix
    exact Nat.lt_succ_of_le hsuffix.length_le

/-- All records up to the end, or to what the reader raises. -/
def records (lines : List (List Char)) : List (List (List Char)) × Option Error :=
  match _h : readRecord limit delimiter lines .start with
  | (.error e, _) => ([], some e)
  | (.ok none, _) => ([], none)
  | (.ok (some record), rest) => (record :: (records rest).1, (records rest).2)
termination_by lines.length
decreasing_by all_goals exact readRecord_less limit delimiter _h

end Reading

/-! ### Writing -/

section Writing
variable (delimiter : Char)

/-- What makes the writer quote a field. -/
def Special (c : Char) : Prop := c = delimiter ∨ c = '"' ∨ c = '\r' ∨ c = '\n'

instance (c : Char) : Decidable (Special delimiter c) := by
  unfold Special
  infer_instance

def double (field : List Char) : List Char :=
  field.flatMap fun c => if c = '"' then ['"', '"'] else [c]

/-- `join_append_data`: a field is quoted if it has to be. -/
def renderField (field : List Char) : List Char :=
  if field.any (fun c => Special delimiter c) then '"' :: (double field ++ ['"']) else field

/-- `writerow`; a record of one empty field would be lost and is quoted. -/
def renderRow (fields : List (List Char)) : List Char :=
  (if fields = [[]] then ['"', '"'] else [delimiter].intercalate
    (fields.map (renderField delimiter))) ++
    ['\r', '\n']

end Writing

/-! ### Reading what was written -/

section Steps
variable {limit : ℕ} {delimiter c : Char} {cs : List Char} {r r' : Reader}

/-- In the middle of a line. -/
theorem readRecord_step (hc : c ≠ '\r') (hbreak : isLineBreak c = false) (hcs : cs ≠ [])
    (hstep : r.processChar limit delimiter c = .ok r') :
    readRecord limit delimiter (splitlines (c :: cs)) r =
      readRecord limit delimiter (splitlines cs) r' := by
  have hsplit : ∃ line lines, splitlines cs = line :: lines ∧
      splitlines (c :: cs) = (c :: line) :: lines := by
    cases hlines : splitlines cs with
    | nil => exact absurd (splitlines_eq_nil.mp hlines) hcs
    | cons line lines =>
      refine ⟨line, lines, rfl, ?_⟩
      rw [splitlines.eq_3 c cs (fun _ h _ => hc h), if_neg (by simp [hc, hbreak]), hlines]
  obtain ⟨line, lines, hlines, hsplit⟩ := hsplit
  have hline : readLine limit delimiter (c :: line) r = readLine limit delimiter line r' := by
    rw [readLine, hstep]
    rfl
  rw [hsplit, hlines, readRecord, readRecord, hline]

theorem processChar_quoted {before : List Char} {fields : List (List Char)} (hc : c ≠ '"')
    (hroom : before.length < limit) :
    Reader.processChar limit delimiter c ⟨.inQuotedField, before, fields⟩ =
      .ok ⟨.inQuotedField, before ++ [c], fields⟩ := by
  rw [Reader.processChar]
  dsimp only
  rw [if_neg hc, Reader.addChar, if_neg (by dsimp only; omega)]

/-- The end of a line inside quotes is one character more. -/
theorem readRecord_quoted {before : List Char} {fields : List (List Char)} (hc : c ≠ '"')
    (hroom : before.length < limit) (hcs : cs ≠ []) :
    readRecord limit delimiter (splitlines (c :: cs)) ⟨.inQuotedField, before, fields⟩ =
      readRecord limit delimiter (splitlines cs) ⟨.inQuotedField, before ++ [c], fields⟩ := by
  have hstep : Reader.processChar limit delimiter c ⟨.inQuotedField, before, fields⟩ =
      .ok ⟨.inQuotedField, before ++ [c], fields⟩ := processChar_quoted hc hroom
  by_cases hend : c = '\r' ∨ isLineBreak c
  · by_cases hcrlf : ∃ ds, c = '\r' ∧ cs = '\n' :: ds
    · obtain ⟨ds, rfl, rfl⟩ := hcrlf
      have hline : readLine limit delimiter ['\r', '\n'] ⟨.inQuotedField, before, fields⟩ =
          readLine limit delimiter ['\n'] ⟨.inQuotedField, before ++ ['\r'], fields⟩ := by
        rw [readLine, hstep]
        rfl
      rw [splitlines.eq_2, splitlines.eq_3 _ _ (by simp), if_pos (by decide), readRecord,
        readRecord, hline]
    · have hsplit : splitlines (c :: cs) = [c] :: splitlines cs := by
        rw [splitlines.eq_3 c cs fun ds h h' => hcrlf ⟨ds, h, h'⟩, if_pos hend]
      have hline : readLine limit delimiter [c] ⟨.inQuotedField, before, fields⟩ =
          .ok ⟨.inQuotedField, before ++ [c], fields⟩ := by
        rw [readLine, hstep]
        rfl
      rw [hsplit, readRecord, hline]
      rfl
  · rw [not_or, Bool.not_eq_true] at hend
    exact readRecord_step hend.1 hend.2 hcs hstep

/-- The induction is on the field. -/
theorem readRecord_double {field rest : List Char} (before : List Char) {fields : List (List Char)}
    (hroom : before.length + field.length ≤ limit) (hrest : rest ≠ []) :
    readRecord limit delimiter (splitlines (double field ++ '"' :: rest))
      ⟨.inQuotedField, before, fields⟩ =
      readRecord limit delimiter (splitlines rest)
      ⟨.quoteInQuotedField, before ++ field, fields⟩ := by
  induction field generalizing before with
  | nil =>
    have hquote : Reader.processChar limit delimiter '"' ⟨.inQuotedField, before, fields⟩ =
        .ok ⟨.quoteInQuotedField, before, fields⟩ := rfl
    rw [List.append_nil]
    exact readRecord_step (by decide) (by decide) hrest hquote
  | cons c field ih =>
    rw [List.length_cons] at hroom
    have hcut : double (c :: field) ++ '"' :: rest =
        (if c = '"' then ['"', '"'] else [c]) ++ (double field ++ '"' :: rest) := by
      rw [double, List.flatMap_cons, List.append_assoc]
      rfl
    have hmore : double field ++ '"' :: rest ≠ [] := by simp
    have hrest := ih (before ++ [c])
      (by simp only [List.length_append, List.length_singleton]; omega)
    rw [List.append_assoc, List.singleton_append] at hrest
    rw [hcut]
    by_cases hc : c = '"'
    · subst hc
      have hquote : Reader.processChar limit delimiter '"' ⟨.inQuotedField, before, fields⟩ =
          .ok ⟨.quoteInQuotedField, before, fields⟩ := rfl
      have hsecond : Reader.processChar limit delimiter '"' ⟨.quoteInQuotedField, before, fields⟩ =
          .ok ⟨.inQuotedField, before ++ ['"'], fields⟩ := by
        rw [Reader.processChar]
        dsimp only
        rw [if_pos rfl, Reader.addChar, if_neg (by simp only [Reader.enter]; omega)]
        rfl
      rw [if_pos rfl, List.cons_append, List.cons_append, List.nil_append,
        readRecord_step (by decide) (by decide) (List.cons_ne_nil _ _) hquote,
        readRecord_step (by decide) (by decide) hmore hsecond, hrest]
    · rw [if_neg hc, List.cons_append, List.nil_append, readRecord_quoted hc (by omega) hmore,
        hrest]

end Steps

section Fields
variable {limit : ℕ} {delimiter : Char} {r : Reader} {field rest : List Char}

/-- What comes back: a field within the limit that is quoted if a line ends in it. -/
structure Readable (limit : ℕ) (delimiter : Char) (field : List Char) : Prop where
  length : field.length ≤ limit
  breaks : (∃ c ∈ field, Special delimiter c) ∨ ∀ c ∈ field, isLineBreak c = false

instance (limit : ℕ) (delimiter : Char) (field : List Char) :
    Decidable (Readable limit delimiter field) :=
  decidable_of_iff (field.length ≤ limit ∧ (field.any (fun c => Special delimiter c) = true ∨
      field.all (fun c => !isLineBreak c) = true)) (by
    rw [List.any_eq_true, List.all_eq_true]
    simp only [decide_eq_true_eq, Bool.not_eq_true']
    exact ⟨fun h => ⟨h.1, h.2⟩, fun h => ⟨h.length, h.breaks⟩⟩)

/-- A delimiter that the reader can tell. -/
structure Delimits (delimiter : Char) : Prop where
  quote : delimiter ≠ '"'
  cr : delimiter ≠ '\r'
  breaks : isLineBreak delimiter = false

theorem Delimits.newline (h : Delimits delimiter) : delimiter ≠ '\n' := by
  rintro rfl
  exact absurd h.breaks (by decide)

/-- Where a field may begin. -/
def Opening (r : Reader) : Prop := r.field = [] ∧ (r.state = .startRecord ∨ r.state = .startField)

theorem Opening.processChar {c : Char} (h : Opening r) (hc : c ≠ '\r') (hc' : c ≠ '\n') :
    r.processChar limit delimiter c = r.startField limit delimiter c := by
  rw [Reader.processChar]
  rcases h.2 with hstate | hstate
  · rw [hstate]
    exact if_neg (by simp [hc, hc'])
  · rw [hstate]

/-- The induction is on the field. -/
theorem readRecord_plain (before : List Char) {fields : List (List Char)}
    (hroom : before.length + field.length ≤ limit)
    (hplain : ∀ c ∈ field, ¬ Special delimiter c ∧ isLineBreak c = false) (hrest : rest ≠ []) :
    readRecord limit delimiter (splitlines (field ++ rest)) ⟨.inField, before, fields⟩ =
      readRecord limit delimiter (splitlines rest) ⟨.inField, before ++ field, fields⟩ := by
  induction field generalizing before with
  | nil => rw [List.nil_append, List.append_nil]
  | cons c field ih =>
    rw [List.length_cons] at hroom
    obtain ⟨hc, hbreak⟩ := hplain c List.mem_cons_self
    simp only [Special, not_or] at hc
    obtain ⟨hdelimiter, hquote, hcr, hlf⟩ := hc
    have hstep : Reader.processChar limit delimiter c ⟨.inField, before, fields⟩ =
        .ok ⟨.inField, before ++ [c], fields⟩ := by
      rw [Reader.processChar]
      dsimp only
      rw [if_neg (by simp [hcr, hlf]), if_neg hdelimiter, Reader.addChar,
        if_neg (by dsimp only; omega)]
    have hmore := ih (before ++ [c])
      (by simp only [List.length_append, List.length_singleton]; omega)
      fun d hd => hplain d (List.mem_cons_of_mem _ hd)
    rw [List.append_assoc, List.singleton_append] at hmore
    rw [List.cons_append, readRecord_step hcr hbreak (by simp [hrest]) hstep, hmore]

/-- Where a field may end. -/
structure Closing (r : Reader) (written : List Char) (r' : Reader) : Prop where
  field : r'.field = written
  fields : r'.fields = r.fields
  state : r'.state = .inField ∨ r'.state = .quoteInQuotedField ∨ (written = [] ∧ r' = r)

/-- A field, as it was written. -/
theorem readRecord_field (hopening : Opening r)
    (hfield : Readable limit delimiter field) (hrest : rest ≠ []) :
    ∃ r', Closing r field r' ∧
      readRecord limit delimiter (splitlines (renderField delimiter field ++ rest)) r =
        readRecord limit delimiter (splitlines rest) r' := by
  unfold renderField
  simp only [List.any_eq_true, decide_eq_true_eq]
  have hlength := hfield.length
  by_cases hquoted : ∃ c ∈ field, Special delimiter c
  · rw [if_pos hquoted]
    have hstep : r.processChar limit delimiter '"' = .ok ⟨.inQuotedField, [], r.fields⟩ := by
      rw [hopening.processChar (by decide) (by decide), ← hopening.1]
      rfl
    refine ⟨⟨.quoteInQuotedField, field, r.fields⟩, ⟨rfl, rfl, .inr (.inl rfl)⟩, ?_⟩
    rw [List.cons_append, List.append_assoc,
      readRecord_step (by decide) (by decide) (by simp) hstep,
      List.singleton_append, readRecord_double [] (by simpa using hlength) hrest, List.nil_append]
  · rw [if_neg hquoted]
    have hplain : ∀ c ∈ field, ¬ Special delimiter c ∧ isLineBreak c = false := by
      intro c hc
      refine ⟨fun hspecial => hquoted ⟨c, hc, hspecial⟩, ?_⟩
      exact (hfield.breaks.resolve_left hquoted) c hc
    cases field with
    | nil => exact ⟨r, ⟨hopening.1, rfl, .inr (.inr ⟨rfl, rfl⟩)⟩, rfl⟩
    | cons c field =>
      obtain ⟨hc, hbreak⟩ := hplain c List.mem_cons_self
      simp only [Special, not_or] at hc
      obtain ⟨hdelimiter, hquote, hcr, hlf⟩ := hc
      rw [List.length_cons] at hlength
      have hstep : r.processChar limit delimiter c = .ok ⟨.inField, [c], r.fields⟩ := by
        rw [hopening.processChar hcr hlf, Reader.startField, if_neg (by simp [hcr, hlf]),
          if_neg hquote, if_neg hdelimiter, Reader.addChar, Reader.enter, hopening.1,
          if_neg (by simp only [List.length_nil]; omega)]
        rfl
      refine ⟨⟨.inField, c :: field, r.fields⟩, ⟨rfl, rfl, .inl rfl⟩, ?_⟩
      rw [List.cons_append, readRecord_step hcr hbreak (by simp [hrest]) hstep,
        readRecord_plain [c] (by simp only [List.length_singleton]; omega)
          (fun d hd => hplain d (List.mem_cons_of_mem _ hd)) hrest]
      rfl

/-- The delimiter ends a field, an empty first one too. -/
theorem Closing.separate {r' : Reader} (h : Closing r field r') (hopening : Opening r)
    (hdelimits : Delimits delimiter) :
    r'.processChar limit delimiter delimiter = .ok ⟨.startField, [], r.fields ++ [field]⟩ := by
  have hsave : r'.saveField.enter .startField = ⟨.startField, [], r.fields ++ [field]⟩ := by
    rw [← h.field, ← h.fields]
    rfl
  have hnewline : ¬ (delimiter = '\n' ∨ delimiter = '\r') := by
    rw [not_or]
    exact ⟨hdelimits.newline, hdelimits.cr⟩
  rw [← hsave]
  rcases h.state with hstate | hstate | ⟨-, rfl⟩
  · rw [Reader.processChar, hstate]
    dsimp only
    rw [if_neg hnewline, if_pos rfl]
  · rw [Reader.processChar, hstate]
    dsimp only
    rw [if_neg hdelimits.quote, if_pos rfl]
  · rw [hopening.processChar hdelimits.cr hdelimits.newline, Reader.startField, if_neg hnewline,
      if_neg hdelimits.quote, if_pos rfl]

/-- So does the end of the row, but for an empty field that is all of it. -/
theorem Closing.newline {r' : Reader} (h : Closing r field r')
    (hfirst : field = [] → r.state = .startField) (hdelimits : Delimits delimiter) :
    r'.processChar limit delimiter '\r' = .ok ⟨.eatCrnl, [], r.fields ++ [field]⟩ := by
  have hsave : r'.saveField.enter .eatCrnl = ⟨.eatCrnl, [], r.fields ++ [field]⟩ := by
    rw [← h.field, ← h.fields]
    rfl
  rw [← hsave]
  rcases h.state with hstate | hstate | ⟨hempty, rfl⟩
  · rw [Reader.processChar, hstate]
    rfl
  · rw [Reader.processChar, hstate]
    dsimp only
    rw [if_neg (by decide), if_neg hdelimits.cr.symm, if_pos (by simp)]
  · rw [Reader.processChar, hfirst hempty]
    rfl

end Fields

section Rows
variable {limit : ℕ} {delimiter : Char} {r : Reader} {fields : List (List Char)} {rest : List Char}

theorem splitlines_crlf (rest : List Char) :
    splitlines ('\r' :: '\n' :: rest) = ['\r', '\n'] :: splitlines rest := rfl

theorem readRecord_newline (h : r.processChar limit delimiter '\r' = .ok ⟨.eatCrnl, [], fields⟩) :
    readRecord limit delimiter (splitlines ('\r' :: '\n' :: rest)) r =
      (.ok (some fields), splitlines rest) := by
  have hline : readLine limit delimiter ['\r', '\n'] r = .ok ⟨.startRecord, [], fields⟩ := by
    rw [readLine, h]
    rfl
  rw [splitlines_crlf, readRecord, hline]
  rfl

/-- The rest of a record. The induction is on its fields. -/
theorem readRecord_fields (hdelimits : Delimits delimiter) (hopening : Opening r)
    (hne : fields ≠ [])
    (hfirst : fields = [[]] → r.state = .startField)
    (hfields : ∀ field ∈ fields, Readable limit delimiter field) :
    readRecord limit delimiter (splitlines
        ([delimiter].intercalate (fields.map (renderField delimiter)) ++ '\r' :: '\n' :: rest)) r =
      (.ok (some (r.fields ++ fields)), splitlines rest) := by
  induction fields generalizing r with
  | nil => exact absurd rfl hne
  | cons field fields ih =>
    have hfield := hfields field List.mem_cons_self
    cases fields with
    | nil =>
      obtain ⟨r', hclosing, hread⟩ := readRecord_field hopening hfield
        (List.cons_ne_nil '\r' ('\n' :: rest))
      rw [List.map_cons, List.map_nil, List.intercalate_singleton, hread]
      exact readRecord_newline (hclosing.newline (fun h => hfirst (by rw [h])) hdelimits)
    | cons next fields =>
      have hcut : [delimiter].intercalate ((field :: next :: fields).map (renderField delimiter)) ++
          '\r' :: '\n' :: rest = renderField delimiter field ++ delimiter ::
            ([delimiter].intercalate ((next :: fields).map (renderField delimiter)) ++
              '\r' :: '\n' :: rest) := by
        simp [List.intercalate]
      obtain ⟨r', hclosing, hread⟩ := readRecord_field hopening hfield (List.cons_ne_nil delimiter
        ([delimiter].intercalate ((next :: fields).map (renderField delimiter)) ++
          '\r' :: '\n' :: rest))
      rw [hcut, hread, readRecord_step hdelimits.cr hdelimits.breaks (by simp)
        (hclosing.separate hopening hdelimits),
        ih ⟨rfl, .inr rfl⟩ (List.cons_ne_nil _ _) (fun _ => rfl)
          fun f hf => hfields f (List.mem_cons_of_mem _ hf)]
      rw [List.append_assoc, List.singleton_append]

/-- A record that `writerow` wrote is read back, and nothing else is taken. -/
theorem readRecord_row (hdelimits : Delimits delimiter)
    (hfields : ∀ field ∈ fields, Readable limit delimiter field) :
    readRecord limit delimiter (splitlines (renderRow delimiter fields ++ rest)) .start =
      (.ok (some fields), splitlines rest) := by
  have hopening : Opening .start := ⟨rfl, .inl rfl⟩
  unfold renderRow
  by_cases hsingle : fields = [[]]
  · subst hsingle
    have hfirst : Reader.processChar limit delimiter '"' .start = .ok ⟨.inQuotedField, [], []⟩ :=
      rfl
    have hsecond : Reader.processChar limit delimiter '"' ⟨.inQuotedField, [], []⟩ =
        .ok ⟨.quoteInQuotedField, [], []⟩ := rfl
    have hclosing : Closing .start [] ⟨.quoteInQuotedField, [], []⟩ := ⟨rfl, rfl, .inr (.inl rfl)⟩
    have hend : Reader.processChar limit delimiter '\r' ⟨.quoteInQuotedField, [], []⟩ =
        .ok ⟨.eatCrnl, [], [[]]⟩ := by
      rw [Reader.processChar]
      dsimp only
      rw [if_neg (by decide), if_neg hdelimits.cr.symm, if_pos (by simp)]
      rfl
    rw [if_pos rfl, List.append_assoc, List.cons_append, List.cons_append, List.nil_append,
      readRecord_step (by decide) (by decide) (by simp) hfirst,
      readRecord_step (by decide) (by decide) (by simp) hsecond]
    exact readRecord_newline hend
  · rw [if_neg hsingle, List.append_assoc]
    by_cases hne : fields = []
    · subst hne
      exact readRecord_newline rfl
    · exact readRecord_fields hdelimits hopening hne (fun h => absurd h hsingle) hfields

theorem records_cons {record : List (List Char)} {lines lines' : List (List Char)}
    (h : readRecord limit delimiter lines .start = (.ok (some record), lines')) :
    records limit delimiter lines =
      (record :: (records limit delimiter lines').1, (records limit delimiter lines').2) := by
  rw [records]
  split
  · rename_i hread
    rw [h] at hread
    cases hread
  · rename_i hread
    rw [h] at hread
    cases hread
  · rename_i hread
    rw [h] at hread
    cases hread
    rfl

theorem records_error_nil {lines lines' : List (List Char)} {e : Error}
    (h : readRecord limit delimiter lines .start = (.error e, lines')) :
    records limit delimiter lines = ([], some e) := by
  rw [records]
  split
  · rename_i hread
    rw [h] at hread
    cases hread
    rfl
  · rename_i hread
    rw [h] at hread
    cases hread
  · rename_i hread
    rw [h] at hread
    cases hread

theorem readRecord_none {lines lines' : List (List Char)} (r : Reader)
    (h : readRecord limit delimiter lines r = (.ok none, lines')) : lines' = [] := by
  induction lines generalizing r with
  | nil =>
    unfold readRecord at h
    split_ifs at h
    · cases h
    · cases h
      rfl
  | cons line lines ih =>
    rw [readRecord] at h
    split at h
    · cases h
    · split_ifs at h
      · cases h
      · exact ih _ h

theorem records_nil {lines lines' : List (List Char)}
    (h : readRecord limit delimiter lines .start = (.ok none, lines')) :
    records limit delimiter lines = ([], none) := by
  rw [records]
  split
  · rename_i hread
    rw [h] at hread
    cases hread
  · rfl
  · rename_i hread
    rw [h] at hread
    cases hread

theorem readLine_state {line : List Char} {r r' : Reader}
    (h : readLine limit delimiter line r = .ok r') :
    r'.state = .startRecord ∨ r'.state = .inQuotedField := by
  induction line generalizing r with
  | nil =>
    cases h
    unfold Reader.processEnd
    cases hstate : r.state <;> simp [Reader.enter, hstate]
  | cons c line ih =>
    rw [readLine] at h
    obtain ⟨r₁, -, h⟩ := bind_eq_ok.mp h
    exact ih h

/-- There is a record wherever there is a line. -/
theorem readRecord_ne_none {lines lines' : List (List Char)} {r : Reader}
    (h : lines = [] → r.state = .inQuotedField) :
    readRecord limit delimiter lines r ≠ (.ok none, lines') := by
  induction lines generalizing r with
  | nil =>
    rw [readRecord, if_pos (.inr (h rfl))]
    simp
  | cons line lines ih =>
    rw [readRecord]
    split
    · simp
    · rename_i r' hline
      split_ifs with hstate
      · simp
      · exact ih fun _ => (readLine_state hline).resolve_left hstate

/-- A file of records is read back. -/
theorem records_rows (hdelimits : Delimits delimiter) {rows : List (List (List Char))}
    (hrows : ∀ row ∈ rows, ∀ field ∈ row, Readable limit delimiter field) :
    records limit delimiter (splitlines (rows.flatMap (renderRow delimiter))) = (rows, none) := by
  induction rows with
  | nil =>
    rw [List.flatMap_nil, records]
    rfl
  | cons row rows ih =>
    rw [List.flatMap_cons, records_cons (readRecord_row hdelimits (hrows row List.mem_cons_self)),
      ih fun row hrow => hrows row (List.mem_cons_of_mem _ hrow)]

/-- The lines of `str.splitlines` have their line break at the end. -/
inductive Line : List Char → Prop
  | plain (cs : List Char) (h : ∀ c ∈ cs, c ≠ '\r' ∧ isLineBreak c = false) : Line cs
  | ended (cs : List Char) (c : Char) (h : ∀ c ∈ cs, c ≠ '\r' ∧ isLineBreak c = false) :
    Line (cs ++ [c])
  | crlf (cs : List Char) (h : ∀ c ∈ cs, c ≠ '\r' ∧ isLineBreak c = false) :
    Line (cs ++ ['\r', '\n'])

theorem Line.cons {c : Char} {line : List Char} (hc : c ≠ '\r' ∧ isLineBreak c = false)
    (h : Line line) : Line (c :: line) := by
  have hall : ∀ cs : List Char, (∀ d ∈ cs, d ≠ '\r' ∧ isLineBreak d = false) →
      ∀ d ∈ c :: cs, d ≠ '\r' ∧ isLineBreak d = false := by
    intro cs hcs d hd
    rcases List.mem_cons.mp hd with rfl | hd
    · exact hc
    · exact hcs d hd
  cases h with
  | plain _ h => exact .plain _ (hall _ h)
  | ended cs d h => exact .ended _ d (hall cs h)
  | crlf cs h => exact .crlf _ (hall cs h)

theorem line_of_mem_splitlines (text : List Char) : ∀ line ∈ splitlines text, Line line := by
  fun_induction splitlines text with
  | case1 => simp
  | case2 cs ih =>
    rw [List.forall_mem_cons]
    exact ⟨.crlf [] (by simp), ih⟩
  | case3 c cs _ _ ih =>
    rw [List.forall_mem_cons]
    exact ⟨.ended [] c (by simp), ih⟩
  | case4 c cs _ hc hlines ih =>
    rw [List.forall_mem_singleton]
    exact .ended [] c (by simp)
  | case5 c cs _ hc line lines hlines ih =>
    rw [not_or, Bool.not_eq_true] at hc
    rw [hlines, List.forall_mem_cons] at ih
    rw [List.forall_mem_cons]
    exact ⟨ih.1.cons hc, ih.2⟩

theorem addChar_error {c : Char} {e : Error} (h : r.addChar limit c = .error e) :
    e = .fieldLimit limit := by
  unfold Reader.addChar at h
  split_ifs at h
  cases h
  rfl

theorem addChar_ok {c : Char} {r' : Reader} (h : r.addChar limit c = .ok r') :
    r'.state = r.state := by
  unfold Reader.addChar at h
  split_ifs at h
  cases h
  rfl

variable (limit delimiter) in
theorem startField_char {c : Char} :
    r.startField limit delimiter c = (r.enter .inField).addChar limit c ∨
      ∃ r', r.startField limit delimiter c = .ok r' ∧
      (r'.state = .eatCrnl → c = '\n' ∨ c = '\r') := by
  unfold Reader.startField
  split_ifs with hnewline hquote hdelimiter
  · exact .inr ⟨_, rfl, fun _ => hnewline⟩
  · exact .inr ⟨_, rfl, nofun⟩
  · exact .inr ⟨_, rfl, nofun⟩
  · exact .inl rfl

variable (limit delimiter) in
/-- What becomes of a character outside the end of a line. -/
theorem processChar_char {c : Char} (hstate : r.state ≠ .eatCrnl) :
    (∃ state, state ≠ .eatCrnl ∧ r.processChar limit delimiter c =
      (r.enter state).addChar limit c) ∨
      ∃ r', r.processChar limit delimiter c = .ok r' ∧
      (r'.state = .eatCrnl → c = '\n' ∨ c = '\r') := by
  have hfield := startField_char limit delimiter (r := r) (c := c)
  have hsame : r.enter r.state = r := rfl
  unfold Reader.processChar
  cases hr : r.state with
  | startRecord =>
    dsimp only
    split_ifs with hnewline
    · exact .inr ⟨_, rfl, fun _ => hnewline⟩
    · exact hfield.imp (fun h => ⟨.inField, by simp, h⟩) id
  | startField => exact hfield.imp (fun h => ⟨.inField, by simp, h⟩) id
  | inField =>
    dsimp only
    split_ifs with hnewline hdelimiter
    · exact .inr ⟨_, rfl, fun _ => hnewline⟩
    · exact .inr ⟨_, rfl, nofun⟩
    · exact .inl ⟨r.state, hstate, rfl⟩
  | inQuotedField =>
    dsimp only
    split_ifs with hquote
    · exact .inr ⟨_, rfl, nofun⟩
    · exact .inl ⟨r.state, hstate, rfl⟩
  | quoteInQuotedField =>
    dsimp only
    split_ifs with hquote hdelimiter hnewline
    · exact .inl ⟨.inQuotedField, by simp, rfl⟩
    · exact .inr ⟨_, rfl, nofun⟩
    · exact .inr ⟨_, rfl, fun _ => hnewline⟩
    · exact .inl ⟨.inField, by simp, rfl⟩
  | eatCrnl => exact absurd hr hstate

theorem processChar_error {c : Char} {e : Error} (hstate : r.state ≠ .eatCrnl)
    (h : r.processChar limit delimiter c = .error e) : e = .fieldLimit limit := by
  rcases processChar_char limit delimiter (c := c) hstate with
    ⟨state, -, heq⟩ | ⟨r', heq, -⟩
  · exact addChar_error (heq.symm.trans h)
  · cases heq.symm.trans h

theorem processChar_ok {c : Char} {r' : Reader} (hstate : r.state ≠ .eatCrnl)
    (hc : c ≠ '\r' ∧ isLineBreak c = false) (h : r.processChar limit delimiter c = .ok r') :
    r'.state ≠ .eatCrnl := by
  have hnewline : ¬ (c = '\n' ∨ c = '\r') := by
    rintro (rfl | rfl)
    · exact absurd hc.2 (by decide)
    · exact hc.1 rfl
  rcases processChar_char limit delimiter (c := c) hstate with
    ⟨state, hne, heq⟩ | ⟨r'', heq, heat⟩
  · rw [addChar_ok (heq.symm.trans h)]
    exact hne
  · cases heq.symm.trans h
    exact fun h' => hnewline (heat h')

/-- Where a line of a record begins. -/
def Between (r : Reader) : Prop := r.state ≠ .eatCrnl

/-- The induction is on the characters before the line break. -/
theorem readLine_plain {cs rest : List Char} (hr : Between r)
    (hcs : ∀ c ∈ cs, c ≠ '\r' ∧ isLineBreak c = false) :
    readLine limit delimiter (cs ++ rest) r = .error (.fieldLimit limit) ∨
      ∃ r', Between r' ∧ readLine limit delimiter
      (cs ++ rest) r = readLine limit delimiter rest r' := by
  induction cs generalizing r with
  | nil => exact .inr ⟨r, hr, rfl⟩
  | cons c cs ih =>
    rw [List.forall_mem_cons] at hcs
    rw [List.cons_append, readLine]
    cases hstep : r.processChar limit delimiter c with
    | error e =>
      rw [processChar_error hr hstep]
      exact .inl rfl
    | ok r' => exact ih (processChar_ok hr hcs.1 hstep) hcs.2

theorem between_processEnd (r : Reader) : Between r.processEnd := by
  unfold Between Reader.processEnd
  cases hstate : r.state <;> simp [Reader.enter, hstate]

/-- A line is read to its end, unless a field is over the limit. -/
theorem readLine_line {line : List Char} (hr : Between r) (hline : Line line) :
    readLine limit delimiter line r = .error (.fieldLimit limit) ∨
      ∃ r', Between r' ∧ readLine limit delimiter line r = .ok r' := by
  have hend : ∀ {cs t : List Char}, (∀ c ∈ cs, c ≠ '\r' ∧ isLineBreak c = false) →
      (∀ r, Between r → readLine limit delimiter t r = .error (.fieldLimit limit) ∨
        ∃ r', Between r' ∧ readLine limit delimiter t r = .ok r') →
      readLine limit delimiter (cs ++ t) r = .error (.fieldLimit limit) ∨
        ∃ r', Between r' ∧ readLine limit delimiter (cs ++ t) r = .ok r' := by
    intro cs t hcs ht
    rcases readLine_plain hr hcs with herror | ⟨r', hr', heq⟩
    · exact .inl herror
    · rw [heq]
      exact ht r' hr'
  cases hline with
  | plain _ h =>
    have hlast := hend (t := []) h fun r hr => .inr ⟨r.processEnd, between_processEnd r, rfl⟩
    rw [List.append_nil] at hlast
    exact hlast
  | ended cs c h =>
    refine hend h fun r hr => ?_
    rw [readLine]
    cases hstep : r.processChar limit delimiter c with
    | error e =>
      rw [processChar_error hr hstep]
      exact .inl rfl
    | ok r' => exact .inr ⟨_, between_processEnd r', rfl⟩
  | crlf cs h =>
    refine hend h fun r hr => ?_
    rw [readLine]
    cases hstep : r.processChar limit delimiter '\r' with
    | error e =>
      rw [processChar_error hr hstep]
      exact .inl rfl
    | ok r' =>
      change readLine limit delimiter ['\n'] r' = _ ∨ ∃ r'',
        _ ∧ readLine limit delimiter ['\n'] r' = _
      rw [readLine]
      by_cases heat : r'.state = .eatCrnl
      · have hnewline : r'.processChar limit delimiter '\n' = .ok r' := by
          rw [Reader.processChar, heat]
          rfl
        rw [hnewline]
        exact .inr ⟨_, between_processEnd r', rfl⟩
      · cases hnext : r'.processChar limit delimiter '\n' with
        | error e =>
          rw [processChar_error heat hnext]
          exact .inl rfl
        | ok r'' => exact .inr ⟨_, between_processEnd r'', rfl⟩

theorem readRecord_error {lines rest : List (List Char)} {e : Error} (hr : Between r)
    (hlines : ∀ line ∈ lines, Line line)
    (h : readRecord limit delimiter lines r = (.error e, rest)) : e = .fieldLimit limit := by
  induction lines generalizing r with
  | nil =>
    unfold readRecord at h
    split_ifs at h
    · cases h
    · cases h
  | cons line lines ih =>
    rw [List.forall_mem_cons] at hlines
    rw [readRecord] at h
    rcases readLine_line hr hlines.1 with herror | ⟨r', hr', heq⟩
    · rw [herror] at h
      cases h
      rfl
    · rw [heq] at h
      dsimp only at h
      split_ifs at h
      · cases h
      · exact ih hr' hlines.2 h

/-- The reader never complains of a line break outside quotes: only a field can be too long for
it. -/
theorem records_error {e : Error} (lines : List (List Char)) (hlines : ∀ line ∈ lines, Line line)
    (h : (records limit delimiter lines).2 = some e) : e = .fieldLimit limit := by
  fun_induction records limit delimiter lines with
  | case1 lines e' rest hread =>
    cases h
    exact readRecord_error (by simp [Between, Reader.start]) hlines hread
  | case2 => cases h
  | case3 lines record rest hread ih =>
    have hsuffix := readRecord_suffix limit delimiter lines .start
    rw [hread] at hsuffix
    exact ih (fun line hline => hlines line (hsuffix.mem hline)) h

end Rows
end Csv
end RethinkDB.Lib
