import RethinkDB.Import.JsonLayout

/-! When every well-formed JSON file is imported: the maximum has to be more than the first buffer,
or the last buffer may not be filled again to see that the file has ended. -/
namespace RethinkDB.Import.Source
open RethinkDB.Lib Prog
open RethinkDB.Import.ReadToQueue (Cut)

variable {V : Type} {D : JSONDecoder V} {array : Bool} {maxSize size b : ℕ} {text : List Char}
  {rows : List V}

/-- Shorter than half the maximum. -/
def Brief (maxSize : ℕ) (text : List Char) : Prop := 2 * text.length < maxSize

theorem Brief.ending (h : Brief maxSize text) : Ending maxSize text := by
  have := (Json.skip_suffix text).length_le
  unfold Brief at h
  unfold Ending
  omega

/-- A file with a document before or after it is longer than four characters. -/
theorem Importable.cases {ends : List Char → Prop} (h : Importable D maxSize ends array text rows) :
    (∃ doc value, D.Document doc value ∧ 2 * doc.length < maxSize) ∨
      array = true ∧ rows = [] ∧ ∃ rest, text = '[' :: rest ∧ closed true rest = true ∧ ends rest := by
  cases array with
  | true =>
    obtain ⟨rest, hrest, hahead⟩ := h
    cases hahead with
    | close hclosed hends => exact .inr ⟨rfl, rfl, rest, hrest, hclosed, hends⟩
    | item _ hdoc hshort => exact .inl ⟨_, _, hdoc, hshort⟩
  | false =>
    obtain ⟨hhead, hahead⟩ := h
    cases hahead with
    | close hclosed => exact absurd hhead ((closed_false_iff.mp hclosed).head (by decide))
    | item _ hdoc hshort => exact .inl ⟨_, _, hdoc, hshort⟩

theorem document_length {doc : List Char} {value : V} (h : D.Document doc value) :
    2 ≤ doc.length := by
  obtain ⟨cs, hcs, hlength⟩ := document_cons h
  rw [hcs, List.length_cons]
  omega

theorem closed_length {rest : List Char} (h : closed true rest = true) : 0 < rest.length := by
  obtain ⟨ws, close, rfl, -⟩ := closed_true_iff.mp h
  simp

/-- The reader is behind the start of its buffer, and has `seen` characters of the text in it. -/
structure Inside (w : Window) (text : List Char) (seen size : ℕ) : Prop where
  text_eq : w.text = text
  seen_eq : w.seen = seen
  atStart_eq : w.atStart = false
  size_eq : w.size = size

namespace Inside
variable {w : Window} {seen : ℕ}

/-- The buffer is filled, and not doubled. -/
theorem fill (maxSize : ℕ) (h : Inside w text seen size) (hsize : seen ≤ size) (hseen : seen < text.length) :
    w.fill maxSize = .ok ⟨text, min (size + 1) text.length, true, size, w.found⟩ := by
  have hwidened : w.widened maxSize = w.size := by
    unfold Window.widened
    rw [h.atStart_eq]
    rfl
  apply Window.fill_ok_iff.mpr
  rw [hwidened, h.text_eq, h.seen_eq, h.atStart_eq, h.size_eq, Window.mk.injEq]
  exact ⟨by simp, hsize, hseen, rfl, rfl, rfl, rfl, rfl⟩

/-- At the end of the file it cannot be. -/
theorem fill_end (maxSize : ℕ) (h : Inside w text seen size) (hsize : seen ≤ size)
    (hseen : text.length ≤ seen) : w.fill maxSize = .error .stopIteration := by
  have hwidened : w.widened maxSize = w.size := by
    unfold Window.widened
    rw [h.atStart_eq]
    rfl
  unfold Window.fill Window.refill
  rw [hwidened, h.text_eq, h.seen_eq, h.atStart_eq, h.size_eq, if_neg (by simp),
    if_neg (Nat.not_lt.mpr hsize), if_pos hseen]

/-- At the end of what is seen there is no line. -/
theorem line_nil (D : JSONDecoder V) (array : Bool) (h : Inside w text 0 size) : w.line D array = ([], none) ∧
    Inside (w.afterLine ([], (none : Option V))) text 0 size := by
  constructor
  · rw [Window.line, Window.visible, h.seen_eq]
    exact line_white white_nil
  · constructor
    · change w.text.drop (w.seen - 0) = text
      rw [h.seen_eq]
      exact h.text_eq
    · exact Nat.sub_self w.seen
    · change (w.atStart && _) = false
      rw [h.atStart_eq]
      rfl
    · exact h.size_eq

end Inside

/-- An array without objects is in the first buffer. -/
theorem comes_empty (maxSize : ℕ) (hb : 0 < b) {rest : List Char} (hclosed : closed true rest = true)
    (hsize : rest.length < size) : ∃ pieces,
    Comes D maxSize size b ('[' :: rest) (.ok ()) pieces ∧ Cut b ([] : List V) pieces := by
  have hseen : (opening true size ('[' :: rest)).seen = rest.length := by
    change min size (rest.length + 1) - 1 = _
    omega
  have hvisible : (opening true size ('[' :: rest)).visible = rest := by
    rw [Window.visible, hseen]
    exact List.take_length
  have hline := Prod.eta (line D false rest)
  generalize (line D false rest).1 = left, (line D false rest).2 = row at hline
  have hsuffix : left <:+ rest := by
    have h := line_suffix D false rest
    rwa [← hline] at h
  have hleft := hsuffix.length_le
  have htake : line D false (rest.take rest.length) = (left, row) := by
    rw [List.take_length, hline]
  obtain ⟨hrow, hclosed', -⟩ := line_closed hclosed (Nat.le_refl _) htake
  rw [← List.suffix_iff_eq_drop.mp hsuffix] at hclosed'
  subst hrow
  have hopen : (opening true size ('[' :: rest)).line D true = (left, none) := by
    rw [Window.line, hvisible]
    exact hline.symm
  have hinside : Inside ((opening true size ('[' :: rest)).afterLine (left, (none : Option V)))
      (rest.drop (rest.length - left.length)) left.length size := by
    constructor
    · change rest.drop (_ - left.length) = _
      rw [hseen]
    · change _ - (_ - left.length) = _
      rw [hseen]
      omega
    · rfl
    · rfl
  have hfill := hinside.fill_end maxSize (by omega) (by rw [List.length_drop]; omega)
  obtain ⟨o, pieces, hcomes, -, hok, -⟩ := comes_of_opening (by omega) hb rfl (.unfilled hopen hfill)
  obtain ⟨hcut, hiff⟩ := hok rfl
  rw [hiff.mpr hclosed'] at hcomes
  exact ⟨pieces, hcomes, hcut⟩

theorem fill_max {text : List Char} {seen : ℕ} {found : Bool} :
    (⟨text, seen, true, maxSize, found⟩ : Window).fill maxSize =
      .error (.attributeError "bytes_processed") :=
  if_pos ⟨rfl, rfl⟩

theorem fill_above {text : List Char} {seen : ℕ} {found : Bool} (hsize : maxSize < size)
    (hseen : maxSize < seen) : (⟨text, seen, true, size, found⟩ : Window).fill maxSize =
      .error (.assertionError "Can not set the read target and full the buffer") := by
  have hwidened : min (size * 2) maxSize = maxSize := by omega
  unfold Window.fill
  rw [if_neg (fun h => Nat.ne_of_gt hsize h.2)]
  change Window.refill (min (size * 2) maxSize) _ = _
  rw [hwidened]
  exact if_pos hseen

/-- A buffer that starts with the closing bracket is filled again, which fails with the buffer at its
maximum, or above it. -/
theorem runs_bracket {w : Window} {rest close : List Char} {seen : ℕ} {e : Raised}
    (hline : w.line D array = (rest, none))
    (h : Inside (w.afterLine (rest, (none : Option V))) (']' :: close) seen size)
    (hseen : seen ≤ close.length) (hclose : close.length ≤ size)
    (hfails : ∀ found, (⟨']' :: close, close.length + 1, true, size, found⟩ : Window).fill maxSize =
      .error e) : Runs D array maxSize w [] e (']' :: close) := by
  have hlength : min (size + 1) (']' :: close).length = close.length + 1 := by
    rw [List.length_cons]
    omega
  have hfill := h.fill maxSize (by omega) (by rw [List.length_cons]; omega)
  rw [hlength] at hfill
  refine .refill hline hfill (.unfilled ?_ ?_)
  · have hvisible : (']' :: close).take (close.length + 1) = [] ++ ']' :: close :=
      List.take_length (l := ']' :: close)
    rw [Window.line, Window.visible, hvisible]
    exact line_bracket white_nil
  · rw [← hfails (w.afterLine (rest, (none : Option V))).found]
    congr 1
    simp [Window.afterLine, Window.advance]

/-- An array whose last document ends with the first buffer. -/
def filling (size : ℕ) (doc : List Char) : List Char :=
  '[' :: (List.replicate (size - 1 - doc.length) ' ' ++ (doc ++ [']']))

theorem white_replicate (n : ℕ) : White (List.replicate n ' ') := by
  intro c hc
  rw [List.eq_of_mem_replicate hc]
  decide

/-- Its import fails if there is no room for the buffer to be doubled. -/
theorem comes_filling {doc : List Char} {value : V} (hdoc : D.Document doc value)
    (hshort : 2 * doc.length < size) (hb : 0 < b) : ∃ pieces,
      Comes D size size b (filling size doc) (.error (.attributeError "bytes_processed")) pieces := by
  have htwo := document_length hdoc
  let ws := List.replicate (size - 1 - doc.length) ' '
  have hws : White ws := white_replicate _
  have hlength : ws.length = size - 1 - doc.length := List.length_replicate
  let w := opening true size (filling size doc)
  have hw : w.text = ws ++ (doc ++ [']']) := rfl
  have hseen : w.seen = ws.length + doc.length := by
    change min size (filling size doc).length - 1 = _
    rw [filling, List.length_cons, List.length_append, List.length_append, List.length_singleton]
    change min size (ws.length + _ + 1) - 1 = _
    omega
  have hvisible : w.visible = ws ++ (doc ++ []) := by
    rw [Window.visible, hseen, hw, List.take_length_add_append, List.take_left, List.append_nil]
  have hline : w.line D true = ([], some value) := by
    rw [Window.line, hvisible]
    exact line_document hws hdoc
  have hinside : Inside (w.afterLine ([], some value)) [']'] 0 size := by
    constructor
    · change w.text.drop (w.seen - 0) = _
      rw [hw, hseen, Nat.sub_zero, List.drop_length_add_append, List.drop_left]
    · exact Nat.sub_self w.seen
    · rfl
    · rfl
  obtain ⟨hnothing, hstays⟩ := hinside.line_nil D true
  have hafter := runs_bracket hnothing hstays (Nat.zero_le _) (Nat.zero_le _) fun _ => fill_max
  obtain ⟨o, pieces, hcomes, -, -, herror⟩ :=
    comes_of_opening (D := D) (by omega) hb rfl (.row hline hafter)
  rw [herror (by simp)] at hcomes
  exact ⟨pieces, hcomes⟩

theorem filling_importable {doc : List Char} {value : V} (hdoc : D.Document doc value)
    (hshort : 2 * doc.length < size) :
    Importable D size (Brief size) true (filling size doc) [value] := by
  have htwo := document_length hdoc
  refine ⟨_, rfl, .item (white_replicate _) hdoc hshort (.close ?_ ?_)⟩
  · exact closed_true_iff.mpr ⟨[], [], rfl, white_nil, white_nil⟩
  · change 2 * 1 < size
    omega

/-- A first buffer of no characters cannot be filled. -/
theorem comes_zero (hb : 0 < b) : ∃ message,
    Comes D maxSize 0 b text (.error (.assertionError message)) [] := by
  refine ⟨"Can not set the read target and full the buffer", 1, fun fuel hfuel => ?_⟩
  obtain ⟨n, rfl⟩ : ∃ n, fuel = n + 1 := ⟨fuel - 1, by omega⟩
  refine ⟨{ JsonSourceFile.init text 0 with bufferStr := some [] }, [], false, ?_⟩
  unfold batches
  dsimp only [Option.getD_some]
  rw [bind_of_ok (raiseIf_neg (by omega) _ _)]
  rfl

/-! ### Objects without fields -/

/-- What follows an opening brace, if it is whitespace and the closing one. -/
def decodeBody (rest : List Char) : Option ℕ :=
  match Json.skip rest with
  | '}' :: more => some (rest.length + 1 - more.length)
  | _ => none

def decodeEmpty (empty : V) : List Char → Option (V × ℕ)
  | '{' :: rest => (decodeBody rest).map fun n => (empty, n)
  | _ => none

theorem decodeBody_brace {ws : List Char} (hws : White ws) (rest : List Char) :
    decodeBody (ws ++ '}' :: rest) = some (ws.length + 2) := by
  have hlength : ws.length + (rest.length + 1) + 1 - rest.length = ws.length + 2 := by omega
  unfold decodeBody
  rw [skip_white hws, Json.skip_cons (by decide), List.length_append, List.length_cons,
    ← hlength]
  rfl

theorem decodeBody_white {ws : List Char} (hws : White ws) : decodeBody ws = none := by
  unfold decodeBody
  rw [skip_nil_iff.mpr hws]

theorem decodeBody_within {rest : List Char} {n : ℕ} (h : decodeBody rest = some n) :
    0 < n ∧ n ≤ rest.length + 1 := by
  unfold decodeBody at h
  split at h
  · rename_i more hskip
    have hlength := (Json.skip_suffix rest).length_le
    rw [hskip, List.length_cons] at hlength
    cases h
    omega
  · cases h

/-- The decoder on files of empty objects. -/
def emptyObjects (empty : V) : JSONDecoder V where
  rawDecode := decodeEmpty empty
  Document doc value := value = empty ∧ ∃ ws, White ws ∧ doc = '{' :: (ws ++ ['}'])
  braces := by
    rintro doc value ⟨-, ws, -, rfl⟩
    exact ⟨ws, rfl⟩
  decodes := by
    rintro doc value rest ⟨rfl, ws, hws, rfl⟩
    have hbody := decodeBody_brace hws rest
    simpa [decodeEmpty] using hbody
  fails := by
    rintro doc value n ⟨rfl, ws, hws, rfl⟩ hn
    rw [List.length_cons, List.length_append, List.length_singleton] at hn
    cases n with
    | zero => rfl
    | succ n =>
      rw [List.take_succ_cons, List.take_append_of_le_length (by omega)]
      exact Option.map_eq_none_iff.mpr (decodeBody_white (hws.take n))
  bracket _ := rfl
  within := by
    intro text value n h
    unfold decodeEmpty at h
    split at h
    · obtain ⟨m, hm, heq⟩ := Option.map_eq_some_iff.mp h
      cases heq
      exact decodeBody_within hm
    · cases h

theorem braces_document : jsonDecoder.Document ['{', '}'] (.obj []) := ⟨rfl, rfl⟩

/-! ### Every file -/

/-- Every well-formed file, whose documents and whose end are shorter than half the maximum, is
imported: its documents in order, in full batches but for the last one. -/
def ImportsAll (D : JSONDecoder V) (maxSize size : ℕ) : Prop :=
  ∀ array text rows b, 0 < b → Importable D maxSize (Brief maxSize) array text rows →
    ∃ pieces, Comes D maxSize size b text (.ok ()) pieces ∧ Cut b rows pieces

theorem Importable.brief (h : Importable D maxSize (Brief maxSize) array text rows) :
    Importable D maxSize (Ending maxSize) array text rows :=
  h.mono (Nat.le_refl _) fun _ h => h.ending

/-- That is so if the buffer can be doubled, or if there is no document that would need it. -/
theorem importsAll_iff (D : JSONDecoder V) {maxSize size : ℕ} (hle : size ≤ maxSize) :
    ImportsAll D maxSize size ↔ (size = 0 → maxSize < 3) ∧
      (size = maxSize → ∀ doc value, D.Document doc value → maxSize ≤ 2 * doc.length) := by
  constructor
  · intro h
    constructor
    · intro hzero
      by_contra hmax
      subst hzero
      have hempty : Importable D maxSize (Brief maxSize) true ['[', ']'] [] := by
        refine ⟨[']'], rfl, .close ?_ ?_⟩
        · exact closed_true_iff.mpr ⟨[], [], rfl, white_nil, white_nil⟩
        · change 2 * 1 < maxSize
          omega
      obtain ⟨pieces, hcomes, -⟩ := h true _ _ 1 Nat.one_pos hempty
      have hfails : ∃ message,
          Comes D maxSize 0 1 ['[', ']'] (.error (.assertionError message)) [] :=
        comes_zero Nat.one_pos
      obtain ⟨message, hcomes'⟩ := hfails
      cases (hcomes.unique hcomes').1
    · intro hsize doc value hdoc
      by_contra hshort
      subst hsize
      have hless : 2 * doc.length < size := by omega
      obtain ⟨pieces, hcomes, -⟩ := h true _ _ 1 Nat.one_pos (filling_importable hdoc hless)
      obtain ⟨pieces', hcomes'⟩ := comes_filling hdoc hless Nat.one_pos
      cases (hcomes.unique hcomes').1
  · rintro ⟨hzero, hsame⟩ array text rows b hb h
    rcases Nat.eq_zero_or_pos size with hsize | hpos
    · have hmax := hzero hsize
      rcases h.cases with ⟨doc, value, hdoc, hshort⟩ | ⟨-, -, rest, -, hclosed, hbrief⟩
      · have := document_length hdoc
        omega
      · have := closed_length hclosed
        unfold Brief at hbrief
        omega
    rcases Nat.lt_or_eq_of_le hle with hlt | heq
    · exact comes_of_lt hpos hlt hb h.brief
    · rcases h.cases with ⟨doc, value, hdoc, hshort⟩ | ⟨-, hrows, rest, htext, hclosed, hbrief⟩
      · have := hsame heq doc value hdoc
        omega
      · subst heq hrows htext
        unfold Brief at hbrief
        exact comes_empty size hb hclosed (by omega)

def ones : List Char := ['[', '{', '"', 'a', '"', ':', ' ', '1', '}', ']']

/-- With the sizes that are there by default, for JSON files: such as `[{"a": 1}]`. -/
theorem importsAll_default : ImportsAll jsonDecoder jsonMaxBufferSize jsonReadChunkSize ∧
    Importable jsonDecoder jsonMaxBufferSize (Brief jsonMaxBufferSize) true ones
      [.obj [("a", .int 1)]] := by
  constructor
  · exact (importsAll_iff jsonDecoder (by decide)).mpr
      ⟨by decide, fun h => absurd h (by decide)⟩
  · have hdoc : jsonDecoder.Document ['{', '"', 'a', '"', ':', ' ', '1', '}']
        (.obj [("a", .int 1)]) := ⟨rfl, rfl⟩
    have hclose : Ahead jsonDecoder true jsonMaxBufferSize (Brief jsonMaxBufferSize) true [']'] [] :=
      .close (by decide) (show 2 * 1 < jsonMaxBufferSize by decide)
    exact ⟨_, rfl, .item white_nil hdoc (by decide) hclose⟩

/-- With a maximum of one chunk, an array whose one object ends where the chunk does. -/
theorem chunk_not_imported :
    Importable jsonDecoder jsonReadChunkSize (Brief jsonReadChunkSize) true
      (filling jsonReadChunkSize ['{', '}']) [.obj []] ∧
    (∃ pieces, Comes jsonDecoder jsonReadChunkSize jsonReadChunkSize 1
      (filling jsonReadChunkSize ['{', '}']) (.error (.attributeError "bytes_processed")) pieces) ∧
    ¬ImportsAll jsonDecoder jsonReadChunkSize jsonReadChunkSize := by
  have hshort : 2 * ['{', '}'].length < jsonReadChunkSize := by decide
  have himportable := filling_importable (braces_document) hshort
  have hfails := comes_filling (braces_document) hshort Nat.one_pos
  refine ⟨himportable, hfails, fun h => ?_⟩
  obtain ⟨pieces, hcomes, -⟩ := h true _ _ 1 Nat.one_pos himportable
  obtain ⟨pieces', hcomes'⟩ := hfails
  cases (hcomes.unique hcomes').1

end RethinkDB.Import.Source
