import RethinkDB.Export.JsonWriter
import RethinkDB.Import.JsonRefills

/-! What `json_writer` wrote is imported again, unless the buffer starts at its maximum: then there
is a table whose file fails, be there only empty objects in it. -/
namespace RethinkDB.Export.JsonWriter
open RethinkDB.Import (JSONDecoder jsonDecoder)
open RethinkDB.Lib RethinkDB.Import.Source
open RethinkDB.Import.ReadToQueue (Row Cut)

variable {V : Type} {D : JSONDecoder (Row V)} {dumps : Row V → List Char} {format : Format}
  {fields : Option (List String)} {rows rows' : List (Row V)} {maxSize size : ℕ}

/-! ### Runs over rows -/

section Rows
variable {array : Bool} {w : Window} {front text : List Char} {seen : ℕ} {row : Row V}

/-- A row that is in the buffer is read. -/
theorem inside_row (row : Row V) (hfront : 0 < front.length) (htext : w.text = front ++ text)
    (hseen : w.seen = front.length + seen) (hle : seen ≤ text.length) :
    Inside (w.afterLine (text.take seen, some row)) text seen w.size := by
  have hlength : (text.take seen).length = seen := List.length_take_of_le hle
  have hkept : w.seen - (text.take seen).length = front.length := by omega
  constructor
  · change w.text.drop (w.seen - (text.take seen).length) = text
    rw [hkept, htext, List.drop_left]
  · change w.seen - (w.seen - (text.take seen).length) = seen
    omega
  · change (w.atStart && decide (w.seen - (text.take seen).length = 0)) = false
    rw [hkept, decide_eq_false (by omega), Bool.and_false]
  · rfl

theorem visible_eq (htext : w.text = front ++ text) (hseen : w.seen = front.length + seen) :
    w.visible = front ++ text.take seen := by
  rw [Window.visible, htext, hseen, List.take_length_add_append]

/-- Behind what is written before it a row is read. -/
theorem line_row (hdoc : D.Document (dumps (restrict fields row)) (restrict fields row))
    (rest : List Char) (first : Bool) {comma : Bool}
    (hcomma : format = .json → first = false → comma = true) :
    line D comma (lead format first ++ (dumps (restrict fields row) ++ rest)) =
      (rest, some (restrict fields row)) := by
  cases format with
  | json =>
    cases first with
    | true => exact line_document white_newline hdoc
    | false =>
      rw [hcomma rfl rfl]
      let text := ['\n'] ++ (dumps (restrict fields row) ++ rest)
      have hlength : 2 ≤ text.length := by
        have := document_length hdoc
        rw [List.length_append, List.length_append]
        omega
      have hline : line D true ([] ++ ',' :: text) = line D false text :=
        line_comma white_nil hlength
      exact hline.trans (line_document white_newline hdoc)
  | ndjson =>
    cases first with
    | true => exact line_document white_nil hdoc
    | false => exact line_document white_newline hdoc

/-- A run over the rows in the buffer. -/
theorem runs_body {first : Bool} (hrows : rows ≠ [])
    (hdoc : ∀ row ∈ rows, D.Document (dumps (restrict fields row)) (restrict fields row))
    (hfound : first = false → w.found = true)
    (htext : w.text = body dumps format fields first rows ++ text)
    (hseen : w.seen = (body dumps format fields first rows).length + seen)
    (hle : seen ≤ text.length) : ∃ w', Inside w' text seen w.size ∧ w'.found = true ∧
      ∀ values e left, Runs D format.array maxSize w' values e left →
        Runs D format.array maxSize w (rows.map (restrict fields) ++ values) e left := by
  induction rows generalizing first w with
  | nil => exact absurd rfl hrows
  | cons row rows ih =>
    have hrow := hdoc row List.mem_cons_self
    let front := lead format first ++ dumps (restrict fields row)
    let rest := body dumps format fields false rows ++ text
    let n := (body dumps format fields false rows).length + seen
    have hfront : 0 < front.length := by
      have := document_length hrow
      rw [List.length_append]
      omega
    have htext' : w.text = front ++ rest := by
      rw [htext, body]
      simp only [front, rest, List.append_assoc]
    have hseen' : w.seen = front.length + n := by
      rw [hseen, body]
      simp only [front, n, List.length_append]
      omega
    have hle' : n ≤ rest.length := by
      rw [List.length_append]
      exact Nat.add_le_add_left hle _
    have hline : w.line D format.array = (rest.take n, some (restrict fields row)) := by
      rw [Window.line, visible_eq htext' hseen', List.append_assoc]
      apply line_row hrow
      intro hjson hfirst
      rw [hjson, hfound hfirst]
      rfl
    have hinside := inside_row (restrict fields row) hfront htext' hseen' hle'
    have hfound' : (w.afterLine (rest.take n, some (restrict fields row))).found = true :=
      Bool.or_true _
    cases rows with
    | nil =>
      have hn : n = seen := Nat.zero_add seen
      rw [hn] at hline hinside hfound'
      exact ⟨_, hinside, hfound', fun values e left hruns => .row hline hruns⟩
    | cons next rows =>
      obtain ⟨w', hw', hfound'', hruns⟩ := ih (List.cons_ne_nil _ _)
        (fun row h => hdoc row (List.mem_cons_of_mem _ h)) (fun _ => hfound') hinside.text_eq
        hinside.seen_eq
      rw [hinside.size_eq] at hw'
      exact ⟨w', hw', hfound'', fun values e left h => .row hline (hruns values e left h)⟩

end Rows

/-! ### Tables of empty objects -/

section Empties
variable {q k b seen : ℕ} {w : Window} {text : List Char}

/-- A row without fields is written as an empty object. -/
structure Empties (D : JSONDecoder (Row V)) (dumps : Row V → List Char) : Prop where
  dumps_eq : dumps [] = ['{', '}']
  document : D.Document ['{', '}'] []

theorem Empties.replicate (h : Empties D dumps) (k : ℕ) : ∀ row ∈ List.replicate k ([] : Row V),
    D.Document (dumps (restrict none row)) (restrict none row) := by
  intro row hrow
  rw [List.eq_of_mem_replicate hrow]
  change D.Document (dumps []) []
  rw [h.dumps_eq]
  exact h.document

theorem length_body_false (h : Empties D dumps) (k : ℕ) :
    (body dumps .json none false (List.replicate k [])).length = 4 * k := by
  induction k with
  | zero => rfl
  | succ k ih =>
    rw [List.replicate_succ, body, List.length_append, List.length_append, ih]
    change _ + ((dumps []).length + _) = _
    rw [h.dumps_eq]
    change 2 + (2 + 4 * k) = _
    omega

theorem length_body_true (h : Empties D dumps) (hk : 0 < k) :
    (body dumps .json none true (List.replicate k [])).length = 4 * k - 1 := by
  obtain ⟨n, rfl⟩ : ∃ n, k = n + 1 := ⟨k - 1, by omega⟩
  rw [List.replicate_succ, body, List.length_append, List.length_append, length_body_false h]
  change _ + ((dumps []).length + _) = _
  rw [h.dumps_eq]
  change 1 + (2 + 4 * n) = _
  omega

/-- With the end of the file cut in the middle the bracket gets to the start of the buffer. -/
theorem runs_ending {e : Import.Source.Raised} (htext : w.text = ending .json) (hw : w.seen = seen)
    (hsize : w.size = size) (hpos : 0 < seen) (hseen : seen ≤ 2) (hroom : 0 < size)
    (hfails : ∀ found, (⟨[']', '\n'], 2, true, size, found⟩ : Window).fill maxSize = .error e) :
    Runs D true maxSize w [] e [']', '\n'] := by
  have hinside (rest : List Char) (hkept : seen - rest.length = 1) :
      Inside (w.afterLine (rest, (none : Option (Row V)))) [']', '\n'] (seen - 1) size := by
    constructor
    · change w.text.drop (w.seen - rest.length) = _
      rw [hw, hkept, htext]
      rfl
    · change w.seen - (w.seen - rest.length) = _
      rw [hw, hkept]
    · change (w.atStart && decide (w.seen - rest.length = 0)) = false
      rw [hw, hkept]
      exact Bool.and_false _
    · exact hsize
  have hvisible : w.visible = (ending .json).take seen := by
    rw [Window.visible, htext, hw]
  rcases (show seen = 1 ∨ seen = 2 by omega) with hone | htwo
  · have hline : w.line D true = ([], none) := by
      rw [Window.line, hvisible, hone]
      exact line_white white_newline
    exact runs_bracket hline (hinside [] (by rw [hone]; rfl)) (by simp [hone]) hroom hfails
  · have hline : w.line D true = ([']'], none) := by
      rw [Window.line, hvisible, htwo]
      exact line_bracket white_newline
    exact runs_bracket hline (hinside [']'] (by rw [htwo]; rfl)) (by simp [htwo]) hroom
      hfails

/-- The rows that are in the first buffer. -/
theorem runs_first (h : Empties D dumps) (hq : 0 < q) (text : List Char)
    (hmax : maxSize = 4 * q + seen) (hle : seen ≤ text.length) : ∃ w', Inside w' text seen maxSize ∧ w'.found = true ∧
      ∀ values e left, Runs D true maxSize w' values e left →
        Runs D true maxSize (Import.Source.opening true maxSize
          ('[' :: (body dumps .json none true (List.replicate q []) ++ text)))
          ((List.replicate q []).map (restrict none) ++ values) e left := by
  let first := body dumps .json none true (List.replicate q [])
  let w := Import.Source.opening true maxSize ('[' :: (first ++ text))
  have hlength : first.length = 4 * q - 1 := length_body_true h hq
  have htext : w.text = first ++ text := rfl
  have hseen : w.seen = first.length + seen := by
    change min maxSize (_ :: _).length - 1 = _
    rw [List.length_cons, List.length_append, hlength]
    omega
  have hsome : List.replicate q ([] : Row V) ≠ [] := by
    simp only [ne_eq, List.replicate_eq_nil_iff]
    omega
  have hfound : true = false → w.found = true := nofun
  exact runs_body hsome (h.replicate q) hfound htext hseen hle

/-- What is read of the next buffer. -/
theorem runs_next (h : Empties D dumps) (hq : 0 < q) (hpos : 0 < seen) (hseen : seen ≤ 2)
    (hmax : 0 < maxSize)
    (htext : w.text = body dumps .json none false (List.replicate q []) ++ ending .json)
    (hw : w.seen = 4 * q + seen) (hfound : w.found = true) (hsize : w.size = maxSize) :
    Runs D true maxSize w ((List.replicate q []).map (restrict none) ++ [])
      (.attributeError "bytes_processed") [']', '\n'] := by
  have hsome : List.replicate q ([] : Row V) ≠ [] := by
    simp only [ne_eq, List.replicate_eq_nil_iff]
    omega
  rw [← length_body_false h] at hw
  obtain ⟨w', hw', -, hruns⟩ :=
    runs_body hsome (h.replicate q) (fun _ => hfound) htext hw (hseen.trans (by decide))
  rw [hsize] at hw'
  exact hruns _ _ _ (runs_ending hw'.text_eq hw'.seen_eq hw'.size_eq hpos hseen hmax fun _ => fill_max)

/-- Where the first buffer ends with a document, the next one has one character of the end. -/
theorem runs_aligned (h : Empties D dumps) (hq : 0 < q) (hw : Inside w
      (body dumps .json none false (List.replicate q []) ++ ending .json) 0 (4 * q))
    (hfound : w.found = true) :
    Runs D true (4 * q) w ((List.replicate q []).map (restrict none) ++ [])
      (.attributeError "bytes_processed") [']', '\n'] := by
  have hlength := length_body_false h q
  obtain ⟨hnothing, hstays⟩ := hw.line_nil D true
  have hfill := hstays.fill (4 * q) (Nat.zero_le _) (by
    rw [List.length_append]
    exact Nat.add_pos_right _ (by decide))
  have hseen : min (4 * q + 1) (body dumps .json none false (List.replicate q []) ++
      ending .json).length = 4 * q + 1 := by
    rw [List.length_append, hlength]
    change min _ (_ + 3) = _
    omega
  rw [hseen] at hfill
  have hfound' : (w.afterLine ([], (none : Option (Row V)))).found = true := by
    change (w.found || _) = true
    rw [hfound]
    rfl
  exact .refill hnothing hfill (runs_next h hq Nat.one_pos (by omega) (by omega) rfl rfl hfound' rfl)

/-- Where it ends in a document, the next one has two. -/
theorem runs_cut (h : Empties D dumps) (hq : 0 < q) (hw : Inside w
      (body dumps .json none false (List.replicate (q + 1) []) ++ ending .json) 3 (4 * q + 3))
    (hfound : w.found = true) :
    Runs D true (4 * q + 3) w ([] :: ((List.replicate q []).map (restrict none) ++ []))
      (.attributeError "bytes_processed") [']', '\n'] := by
  let rest := body dumps .json none false (List.replicate q []) ++ ending .json
  have hrest : rest.length = 4 * q + 3 := by
    rw [List.length_append, length_body_false h]
    rfl
  have htext : w.text = [',', '\n'] ++ (['{', '}'] ++ rest) := by
    have hrow : dumps (restrict none []) = ['{', '}'] := h.dumps_eq
    rw [hw.text_eq, List.replicate_succ, body, hrow]
    rfl
  have hline : w.line D true = (['{'], none) := by
    have hseen : w.seen = [',', '\n'].length + 1 := hw.seen_eq
    rw [Window.line, visible_eq htext hseen, hfound]
    change line D true ([] ++ ',' :: ['\n', '{']) = _
    rw [line_comma white_nil (by decide)]
    exact line_short (by decide)
  have hafter : Inside (w.afterLine (['{'], (none : Option (Row V)))) (['{', '}'] ++ rest) 1
      (4 * q + 3) := by
    constructor
    · change w.text.drop (w.seen - 1) = _
      rw [htext, hw.seen_eq]
      rfl
    · change w.seen - (w.seen - 1) = 1
      rw [hw.seen_eq]
    · change (w.atStart && _) = false
      rw [hw.atStart_eq]
      rfl
    · exact hw.size_eq
  have hfill := hafter.fill (4 * q + 3) (by omega) (by simp)
  have hseen : min (4 * q + 3 + 1) (['{', '}'] ++ rest).length = 2 + (4 * q + 2) := by
    rw [List.length_append, hrest]
    change min _ (2 + _) = _
    omega
  rw [hseen] at hfill
  let found := (w.afterLine (['{'], (none : Option (Row V)))).found
  let v : Window := ⟨['{', '}'] ++ rest, 2 + (4 * q + 2), true, 4 * q + 3, found⟩
  have hv : v.seen = ['{', '}'].length + (4 * q + 2) := rfl
  have hpos : 0 < ['{', '}'].length := Nat.two_pos
  have hdocument : v.line D true = (rest.take (4 * q + 2), some []) := by
    rw [Window.line, visible_eq rfl hv]
    exact line_document white_nil h.document
  have hrow : Inside (v.afterLine (rest.take (4 * q + 2), some ([] : Row V))) rest (4 * q + 2) v.size :=
    inside_row ([] : Row V) hpos rfl hv (by omega)
  refine .refill hline hfill (.row hdocument ?_)
  exact runs_next h hq Nat.two_pos (Nat.le_refl 2) (by omega) hrow.text_eq hrow.seen_eq
    (Bool.or_true _) hrow.size_eq

/-- How many empty objects there are in a table whose file fails. -/
def blanks (maxSize : ℕ) : ℕ :=
  match maxSize % 4 with
  | 0 => 2 * (maxSize / 4)
  | 3 => 2 * (maxSize / 4) + 1
  | _ => maxSize / 4

/-- The file of a table of empty objects. -/
def blank (dumps : Row V → List Char) (k : ℕ) : List Char :=
  jsonWriter dumps .json none (List.replicate k [])

theorem blank_eq (hq : 0 < q) (k : ℕ) : blank dumps (q + k) =
    '[' :: (body dumps .json none true (List.replicate q []) ++
      (body dumps .json none false (List.replicate k []) ++ ending .json)) := by
  have hsome : List.replicate q ([] : Row V) ≠ [] := by
    simp only [ne_eq, List.replicate_eq_nil_iff]
    omega
  rw [blank, jsonWriter_eq, List.replicate_add, body_append hsome, List.append_assoc]
  rfl

theorem runs_blanks (h : Empties D dumps) (hmax : 4 < maxSize) : ∃ rows left,
    Runs D true maxSize (Import.Source.opening true maxSize (blank dumps (blanks maxSize))) rows
      (.attributeError "bytes_processed") left := by
  obtain ⟨q, r, hr, hsize⟩ : ∃ q r, r < 4 ∧ maxSize = 4 * q + r :=
    ⟨maxSize / 4, maxSize % 4, Nat.mod_lt _ (by decide), (Nat.div_add_mod maxSize 4).symm⟩
  have hq : 0 < q := by omega
  have hdiv : maxSize / 4 = q := by omega
  have hmod : maxSize % 4 = r := by omega
  unfold blanks
  rw [hdiv, hmod]
  let last (k : ℕ) := body dumps .json none false (List.replicate k []) ++ ending .json
  have hlast (k : ℕ) : 3 ≤ (last k).length := by
    rw [List.length_append]
    exact Nat.le_add_left _ _
  rcases (show r = 0 ∨ r = 1 ∨ r = 2 ∨ r = 3 by omega) with rfl | rfl | rfl | rfl
  · obtain ⟨w, hw, hfound, hruns⟩ := runs_first h hq (last q) hsize (Nat.zero_le _)
    subst hsize
    change ∃ rows left, Runs D true _ (Import.Source.opening true _ (blank dumps (2 * q))) rows _ left
    rw [Nat.two_mul, blank_eq hq]
    exact ⟨_, _, hruns _ _ _ (runs_aligned h hq hw hfound)⟩
  · obtain ⟨w, hw, -, hruns⟩ := runs_first h hq (last 0) hsize (by have := hlast 0; omega)
    change ∃ rows left, Runs D true _ (Import.Source.opening true _ (blank dumps (q + 0))) rows _ left
    rw [blank_eq hq]
    have hending := runs_ending (D := D) hw.text_eq hw.seen_eq hw.size_eq Nat.one_pos (by omega)
      (by omega) fun _ => fill_max
    exact ⟨_, _, hruns _ _ _ hending⟩
  · obtain ⟨w, hw, -, hruns⟩ := runs_first h hq (last 0) hsize (by have := hlast 0; omega)
    change ∃ rows left, Runs D true _ (Import.Source.opening true _ (blank dumps (q + 0))) rows _ left
    rw [blank_eq hq]
    have hending := runs_ending (D := D) hw.text_eq hw.seen_eq hw.size_eq Nat.two_pos
      (Nat.le_refl 2) (by omega) fun _ => fill_max
    exact ⟨_, _, hruns _ _ _ hending⟩
  · obtain ⟨w, hw, hfound, hruns⟩ := runs_first h hq (last (q + 1)) hsize (hlast _)
    subst hsize
    change ∃ rows left, Runs D true _ (Import.Source.opening true _ (blank dumps (2 * q + 1))) rows _ left
    rw [show 2 * q + 1 = q + (q + 1) by omega, blank_eq hq]
    exact ⟨_, _, hruns _ _ _ (runs_cut h hq hw hfound)⟩

/-- Without rows there are four characters. -/
theorem runs_none {e : Import.Source.Raised} (dumps : Row V → List Char) (hpos : 0 < size) (hsize : size < 4)
    (hfails : ∀ found, (⟨[']', '\n'], 2, true, size, found⟩ : Window).fill maxSize = .error e) :
    Runs D true maxSize (Import.Source.opening true size (blank dumps 0)) [] e [']', '\n'] := by
  let w := Import.Source.opening true size (blank dumps 0)
  have hw : w.seen = size - 1 := by
    change min size 4 - 1 = _
    omega
  by_cases hone : size = 1
  · subst hone
    have hinside : Inside w (ending .json) 0 1 := ⟨rfl, hw, rfl, rfl⟩
    obtain ⟨hnothing, hstays⟩ := hinside.line_nil D true
    have hfill := hstays.fill maxSize (Nat.zero_le _) (by decide)
    exact .refill hnothing hfill
      (runs_ending rfl rfl rfl Nat.two_pos (Nat.le_refl 2) Nat.one_pos hfails)
  · exact runs_ending rfl hw rfl (by omega) (by omega) hpos hfails

/-- The import of such a file fails. -/
theorem comes_blank {rows : List (Row V)} {left : List Char} {e : Import.Source.Raised} (hpos : 0 < size)
    (hb : 0 < b) (hruns : Runs D true maxSize (Import.Source.opening true size (blank dumps k)) rows e left)
    (he : e ≠ .stopIteration) : ∃ pieces, Comes D maxSize size b (blank dumps k) (.error e) pieces := by
  have hmark : (blank dumps k).head? = some (mark true) := by
    rw [blank, jsonWriter_eq]
    rfl
  obtain ⟨o, pieces, hcomes, -, -, herror⟩ := comes_of_opening hpos hb hmark hruns
  rw [herror he] at hcomes
  exact ⟨pieces, hcomes⟩

theorem Empties.dumped (h : Empties D dumps) (hmax : 4 < maxSize) (k : ℕ) :
    ∀ row ∈ List.replicate k ([] : Row V), Dumped D maxSize dumps none row := by
  intro row hrow
  have hdocument := h.replicate k row hrow
  rw [List.eq_of_mem_replicate hrow] at hdocument ⊢
  refine ⟨hdocument, Nat.le_refl _, ?_⟩
  rw [h.dumps_eq]
  exact hmax

/-- A buffer that is of the maximum at the start does not do for some table. -/
theorem blank_fails (h : Empties D dumps) (hpos : 0 < maxSize) (hmax : maxSize ≠ 4) (hb : 0 < b) :
    ∃ k pieces, (∀ row ∈ List.replicate k ([] : Row V), Dumped D maxSize dumps none row) ∧
      Comes D maxSize maxSize b (blank dumps k) (.error (.attributeError "bytes_processed"))
        pieces := by
  rcases Nat.lt_or_gt_of_ne hmax with hless | hmore
  · have hruns := runs_none (D := D) dumps hpos hless fun _ => fill_max
    obtain ⟨pieces, hcomes⟩ := comes_blank hpos hb hruns (by simp)
    exact ⟨0, pieces, by simp, hcomes⟩
  · obtain ⟨rows, left, hruns⟩ := runs_blanks h hmore
    obtain ⟨pieces, hcomes⟩ := comes_blank hpos hb hruns (by simp)
    exact ⟨_, pieces, h.dumped hmore _, hcomes⟩

end Empties

/-- The decoder on files of rows. -/
def rowDecoder : JSONDecoder (Row Json) where
  rawDecode text := match jsonDecoder.rawDecode text with
    | some (.obj row, n) => some (row, n)
    | _ => none
  Document doc row := jsonDecoder.Document doc (.obj row)
  braces := jsonDecoder.braces
  decodes rest hdoc := by rw [jsonDecoder.decodes rest hdoc]
  fails hdoc hn := by rw [jsonDecoder.fails hdoc hn]
  bracket rest := by rw [jsonDecoder.bracket]
  within {text row n} h := by
    split at h
    · rename_i hrow
      cases h
      exact jsonDecoder.within hrow
    · cases h

def dumpsRow (row : Row Json) : List Char := Json.dumps (.obj row)

theorem empties_rows : Empties rowDecoder dumpsRow := ⟨rfl, braces_document⟩

/-! ### Every table -/

/-- The file of every table is imported: what is left of its rows, in order, in full batches but for
the last one. A file of one object on each line has one. -/
def RoundTrips (D : JSONDecoder (Row V)) (dumps : Row V → List Char) (maxSize size : ℕ) : Prop :=
  ∀ format fields rows b, 0 < b → (format = .ndjson → rows ≠ []) →
    (∀ row ∈ rows, Dumped D maxSize dumps fields row) → ∃ pieces,
      Comes D maxSize size b (jsonWriter dumps format fields rows) (.ok ()) pieces ∧
        Cut b (rows.map (restrict fields)) pieces

theorem ending_short (hpos : 0 < maxSize) (format : Format) : Ending maxSize (ending format) := by
  have hlength : (Json.skip (ending format)).length ≤ 2 := by cases format <;> decide
  unfold Ending
  omega

/-- One table, whatever the sizes: it is imported exactly if no buffer that may not grow begins with
the closing bracket. -/
theorem table_iff {b : ℕ} (hpos : 0 < size) (hb : 0 < b) (hmax : 0 < maxSize)
    (hsome : format = .ndjson → rows ≠ []) (hrows : ∀ row ∈ rows, Dumped D maxSize dumps fields row) :
    (∃ pieces, Comes D maxSize size b (jsonWriter dumps format fields rows) (.ok ()) pieces ∧
      Cut b (rows.map (restrict fields)) pieces) ↔
    ∀ w, Reaches D format.array maxSize
      (opening format.array size (jsonWriter dumps format fields rows)) w → ¬w.Shut maxSize := by
  have himportable := jsonWriter_importable (ending_short hmax format) hrows hsome
  have hmore : maxSize ≤ 2 * maxSize + 1 := by omega
  exact imports_iff Ending.suffix (himportable.mono hmore fun _ h => h) hpos hb

/-- That is so unless the buffer starts at the maximum, or with less than an empty array under a
maximum of less than the end of it. -/
theorem roundTrips_iff (h : Empties D dumps) (maxSize size : ℕ) :
    RoundTrips D dumps maxSize size ↔ 0 < size ∧ (size = maxSize → maxSize = 4) ∧
      (maxSize < size → maxSize < 2 → 4 ≤ size) := by
  constructor
  · intro htrips
    have hnone {e : Import.Source.Raised} {pieces : List (List (Row V))}
        (hfails : Comes D maxSize size 1 (blank dumps 0) (.error e) pieces) : False := by
      obtain ⟨pieces', hcomes, -⟩ := htrips .json none [] 1 Nat.one_pos nofun (by simp)
      cases (hcomes.unique hfails).1
    have hpos : 0 < size := by
      by_contra hzero
      obtain rfl : size = 0 := by omega
      obtain ⟨message, hfails⟩ := comes_zero (D := D) Nat.one_pos
      exact hnone hfails
    refine ⟨hpos, fun hsize => ?_, fun hsize hmax => ?_⟩
    · by_contra hfour
      subst hsize
      obtain ⟨k, pieces, hdumped, hcomes⟩ := blank_fails h hpos hfour Nat.one_pos
      obtain ⟨pieces', hcomes', -⟩ := htrips .json none _ 1 Nat.one_pos nofun hdumped
      cases (hcomes.unique hcomes').1
    · by_contra hfour
      have hruns := runs_none (D := D) dumps hpos (by omega) fun _ => fill_above hsize hmax
      obtain ⟨pieces, hcomes⟩ := comes_blank hpos Nat.one_pos hruns (by simp)
      exact hnone hcomes
  · rintro ⟨hpos, hsame, habove⟩ format fields rows b hb hsome hrows
    cases rows with
    | nil =>
      cases format with
      | ndjson => exact absurd rfl (hsome rfl)
      | json =>
        rcases Nat.lt_or_ge size 4 with hless | hroom
        · have hends : Ending maxSize (ending .json) := ending_short (by omega) .json
          have himportable := jsonWriter_importable hends hrows nofun
          rcases Nat.lt_or_gt_of_ne (show size ≠ maxSize by omega) with hlt | hgt
          · exact comes_of_lt hpos hlt hb himportable
          · exact comes_of_gt hgt (by omega) hb himportable
        · exact comes_empty maxSize hb (closed_ending .json) hroom
    | cons row rows =>
      have hrow := hrows row List.mem_cons_self
      have hlength := document_length hrow.document
      have hshort := hrow.short
      have hends : Ending maxSize (ending format) := ending_short (by omega) format
      have himportable := jsonWriter_importable hends hrows hsome
      rcases Nat.lt_trichotomy size maxSize with hlt | heq | hgt
      · exact comes_of_lt hpos hlt hb himportable
      · have := hsame heq
        omega
      · exact comes_of_gt hgt (by omega) hb himportable

/-- With the sizes that are there by default, for rows such as `{"a": 1, "b": [2, 3]}`. -/
theorem roundTrips_default :
    RoundTrips rowDecoder dumpsRow jsonMaxBufferSize jsonReadChunkSize ∧
      Dumped rowDecoder jsonMaxBufferSize dumpsRow none
        [("a", .int 1), ("b", .arr [.int 2, .int 3])] := by
  constructor
  · exact (roundTrips_iff empties_rows _ _).mpr
      ⟨by decide, fun h => absurd h (by decide), fun h => absurd h (by decide)⟩
  · exact ⟨⟨rfl, rfl⟩, Nat.le_refl _, by decide⟩

/-- With a maximum of one chunk, 65536 rows none of whose fields is exported. -/
theorem chunk_not_roundTrips :
    (∃ pieces, Comes rowDecoder jsonReadChunkSize jsonReadChunkSize 1
      (jsonWriter dumpsRow .json none (List.replicate 65536 []))
      (.error (.attributeError "bytes_processed")) pieces) ∧
    ¬RoundTrips rowDecoder dumpsRow jsonReadChunkSize jsonReadChunkSize := by
  have hmax : 4 < jsonReadChunkSize := by decide
  have hblanks : blanks jsonReadChunkSize = 65536 := rfl
  obtain ⟨rows, left, hruns⟩ := runs_blanks empties_rows hmax
  rw [hblanks] at hruns
  have hfails := comes_blank (by decide) Nat.one_pos hruns (by simp)
  refine ⟨hfails, fun htrips => ?_⟩
  obtain ⟨pieces, hcomes⟩ := hfails
  obtain ⟨pieces', hcomes', -⟩ := htrips .json none (List.replicate 65536 []) 1 Nat.one_pos nofun
    (empties_rows.dumped hmax 65536)
  cases (hcomes.unique hcomes').1

end RethinkDB.Export.JsonWriter
