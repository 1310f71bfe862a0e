import RethinkDB.Import.JsonComplete

/-! `json_writer`: the rows of a table as an array, or as one object on each line. -/
namespace RethinkDB.Export.JsonWriter
open RethinkDB.Import (JSONDecoder)
open RethinkDB.Import.Source
open RethinkDB.Import.ReadToQueue (Row)

/-- The formats other than csv. -/
inductive Format where
  | json
  | ndjson
  deriving Repr, DecidableEq

variable {V : Type}

/-- The fields asked for, which `None` does not restrict. -/
def restrict (fields : Option (List String)) (row : Row V) : Row V :=
  match fields with
  | none => row
  | some fields => row.filter fun item => item.1 ∈ fields

structure Out where
  text : List Char
  first : Bool
  deriving Repr, DecidableEq

/-- What stands between a row and what is before it. -/
def lead : Format → Bool → List Char
  | .json, true => ['\n']
  | .json, false => [',', '\n']
  | .ndjson, true => []
  | .ndjson, false => ['\n']

def beginning : Format → List Char
  | .json => ['[']
  | .ndjson => []

def ending : Format → List Char
  | .json => ['\n', ']', '\n']
  | .ndjson => []

section Writer
variable (dumps : Row V → List Char) (format : Format) (fields : Option (List String))

def writeRow (out : Out) (row : Row V) : Out where
  text := out.text ++ (lead format out.first ++ dumps (restrict fields row))
  first := false

/-- The file, of the rows up to the `StopIteration` of the queue. -/
def jsonWriter (rows : List (Row V)) : List Char :=
  (rows.foldl (writeRow dumps format fields) ⟨beginning format, true⟩).text ++ ending format

/-- The part of the file that is of the rows. -/
def body (first : Bool) : List (Row V) → List Char
  | [] => []
  | row :: rows => lead format first ++ (dumps (restrict fields row) ++ body false rows)

end Writer

/-! ### Layout -/

section Layout
variable {dumps : Row V → List Char} {format : Format} {fields : Option (List String)}
  {rows rows' : List (Row V)} {first : Bool}

theorem foldl_writeRow (out : Out) : (rows.foldl (writeRow dumps format fields) out).text =
    out.text ++ body dumps format fields out.first rows := by
  induction rows generalizing out with
  | nil => rw [List.foldl_nil, body, List.append_nil]
  | cons row rows ih =>
    rw [List.foldl_cons, ih, body]
    simp only [writeRow, List.append_assoc]

theorem jsonWriter_eq (rows : List (Row V)) : jsonWriter dumps format fields rows =
    beginning format ++ (body dumps format fields true rows ++ ending format) := by
  rw [jsonWriter, foldl_writeRow, List.append_assoc]

theorem body_append (h : rows ≠ []) : body dumps format fields first (rows ++ rows') =
    body dumps format fields first rows ++ body dumps format fields false rows' := by
  induction rows generalizing first with
  | nil => exact absurd rfl h
  | cons row rows ih =>
    rw [List.cons_append, body, body, List.append_assoc, List.append_assoc]
    congr 2
    cases rows with
    | nil => rfl
    | cons next rows => exact ih (List.cons_ne_nil _ _)

def Format.array : Format → Bool
  | .json => true
  | .ndjson => false

/-- What is relied on of `json.dumps` for a row: what is left of it is written as one document, and
is not longer than all of it, which is shorter than half the maximum. -/
structure Dumped (D : JSONDecoder (Row V)) (maxSize : ℕ) (dumps : Row V → List Char)
    (fields : Option (List String)) (row : Row V) : Prop where
  document : D.Document (dumps (restrict fields row)) (restrict fields row)
  erases : (dumps (restrict fields row)).length ≤ (dumps row).length
  brief : 2 * (dumps row).length < maxSize

variable {D : JSONDecoder (Row V)} {maxSize : ℕ}

theorem Dumped.short {row : Row V} (h : Dumped D maxSize dumps fields row) :
    2 * (dumps (restrict fields row)).length < maxSize := by
  have hle := h.erases
  have hlt := h.brief
  omega

theorem closed_ending (format : Format) : closed format.array (ending format) = true := by
  cases format <;> rfl

/-- The rows are ahead of a reader of the file, behind a comma unless it is at the first. -/
theorem ahead_body {ends : List Char → Prop} (hends : ends (ending format))
    (hrows : ∀ row ∈ rows, Dumped D maxSize dumps fields row) :
    Ahead D format.array maxSize ends (format.array && !first)
      (body dumps format fields first rows ++ ending format) (rows.map (restrict fields)) := by
  induction rows generalizing first with
  | nil => exact .close (closed_ending format) hends
  | cons row rows ih =>
    have hrow := hrows row List.mem_cons_self
    have hrest : Ahead D format.array maxSize ends (format.array && !false) _ _ :=
      ih fun row h => hrows row (List.mem_cons_of_mem _ h)
    rw [Bool.not_false, Bool.and_true] at hrest
    have hitem {ws : List Char} (hws : White ws) :=
      Ahead.item hws hrow.document hrow.short hrest
    rw [body, List.append_assoc, List.append_assoc, List.map_cons]
    cases format with
    | json =>
      cases first with
      | true => exact hitem white_newline
      | false => exact Ahead.comma white_nil (hitem white_newline)
    | ndjson =>
      cases first with
      | true => exact hitem white_nil
      | false => exact hitem white_newline

/-- The file is well formed, unless it has to have rows and has none. -/
theorem jsonWriter_importable {ends : List Char → Prop} (hends : ends (ending format))
    (hrows : ∀ row ∈ rows, Dumped D maxSize dumps fields row)
    (hsome : format = .ndjson → rows ≠ []) :
    Importable D maxSize ends format.array (jsonWriter dumps format fields rows)
      (rows.map (restrict fields)) := by
  have hahead : Ahead D format.array maxSize ends (format.array && !true) _ _ :=
    ahead_body hends hrows
  rw [Bool.not_true, Bool.and_false] at hahead
  rw [jsonWriter_eq]
  cases format with
  | json => exact ⟨_, rfl, hahead⟩
  | ndjson =>
    refine ⟨?_, hahead⟩
    cases rows with
    | nil => exact absurd rfl (hsome rfl)
    | cons row rows =>
      obtain ⟨cs, hcs, -⟩ := document_cons (hrows row List.mem_cons_self).document
      rw [body, hcs]
      rfl

end Layout
end RethinkDB.Export.JsonWriter
