import Mathlib.Data.List.DropRight
import RethinkDB.Import.JsonSource

/-! What the reader of a JSON file sees: the text it has not passed over yet, and how much of that
is in its buffer. -/
namespace RethinkDB.Import.Source
open RethinkDB.Lib Prog

/-! ### A line of a text -/

/-- `get_line` passes over whitespace, and over a comma before an item that is not the first. -/
def past (comma : Bool) (text : List Char) : List Char :=
  let text := Json.skip text
  if comma ∧ 2 ≤ text.length ∧ text.head? = some ',' then
    if text.length = 2 then text.tail else Json.skip text.tail
  else text

section Line
variable {V : Type} (D : JSONDecoder V)

/-- What `get_line` leaves of a text, and the row it returns. -/
def line (comma : Bool) (text : List Char) : List Char × Option V :=
  let text := past comma text
  if text.length ≤ 1 then (text, none)
  else match D.rawDecode text with
    | some (row, n) => (text.drop n, some row)
    | none => (text, none)

end Line

/-- Leading whitespace is passed over. -/
theorem past_suffix (comma : Bool) (text : List Char) : past comma text <:+ Json.skip text := by
  unfold past
  dsimp only
  split_ifs
  · exact List.tail_suffix _
  · exact (Json.skip_suffix _).trans (List.tail_suffix _)
  · exact List.suffix_refl _

theorem line_suffix_skip {V : Type} (D : JSONDecoder V) (comma : Bool) (text : List Char) :
    (line D comma text).1 <:+ Json.skip text := by
  unfold line
  dsimp only
  split_ifs
  · exact past_suffix comma text
  · cases D.rawDecode (past comma text) with
    | none => exact past_suffix comma text
    | some decoded => exact (List.drop_suffix _ _).trans (past_suffix comma text)

theorem line_suffix {V : Type} (D : JSONDecoder V) (comma : Bool) (text : List Char) :
    (line D comma text).1 <:+ text :=
  (line_suffix_skip D comma text).trans (Json.skip_suffix text)

/-! ### The file at a suffix of its buffer -/

namespace JsonSourceFile

/-- Over everything in the buffer before `rest`. -/
def seek (f : JsonSourceFile) (rest : List Char) : JsonSourceFile :=
  f.advance (f.snippit.length - rest.length)

variable {f : JsonSourceFile} {rest rest' : List Char}

theorem snippit_advance (f : JsonSourceFile) (k : ℕ) :
    (f.advance k).snippit = f.snippit.drop k := by
  change (f.bufferStr.getD []).drop (f.bufferPos + k) = _
  rw [snippit, List.drop_drop]

theorem snippit_seek (h : rest <:+ f.snippit) : (f.seek rest).snippit = rest := by
  rw [seek, snippit_advance]
  exact (List.suffix_iff_eq_drop.mp h).symm

theorem seek_seek (h : rest <:+ f.snippit) (h' : rest' <:+ rest) :
    (f.seek rest).seek rest' = f.seek rest' := by
  have hlength := h.length_le
  have hlength' := h'.length_le
  unfold seek at *
  rw [show ((f.advance (f.snippit.length - rest.length)).snippit.length) = rest.length from
    congrArg List.length (snippit_seek h)]
  unfold advance
  rw [JsonSourceFile.mk.injEq]
  refine ⟨rfl, rfl, rfl, rfl, rfl, ?_, rfl, rfl⟩
  dsimp only
  omega

theorem advance_eq_seek {n : ℕ} (h : n ≤ f.snippit.length) :
    f.advance n = f.seek (f.snippit.drop n) := by
  unfold seek
  rw [List.length_drop, Nat.sub_sub_self h]

theorem seek_self (f : JsonSourceFile) : f.seek f.snippit = f := by
  unfold seek
  rw [Nat.sub_self]
  rfl

end JsonSourceFile

structure Ready (array : Option Bool) (f : JsonSourceFile) : Prop where
  str : ∃ str, f.bufferStr = some str ∧ str ≠ [] ∧ f.bufferPos ≤ str.length ∧
    f.bufferEnd = str.length - 1
  array_eq : f.jsonArray = array

section GetLine
variable {V : Type} {D : JSONDecoder V} {flag : Option Bool} {array : Bool} {f : JsonSourceFile}

theorem Ready.seek (h : Ready flag f) (rest : List Char) : Ready flag (f.seek rest) := by
  obtain ⟨str, hstr, hne, hpos, hend⟩ := h.str
  refine ⟨⟨str, hstr, hne, ?_, hend⟩, h.array_eq⟩
  have hsnippit : f.snippit.length = str.length - f.bufferPos := by
    rw [JsonSourceFile.snippit, hstr, List.length_drop]
    rfl
  change f.bufferPos + (f.snippit.length - rest.length) ≤ str.length
  omega

theorem skipWhitespace_eq (h : Ready flag f) :
    skipWhitespace f = (.ok (), f.seek (Json.skip f.snippit)) := by
  obtain ⟨str, hstr, -⟩ := h.str
  have hlength : (f.snippit.takeWhile Json.isWhitespace).length =
      f.snippit.length - (Json.skip f.snippit).length := by
    have h := congrArg List.length (List.takeWhile_append_dropWhile (p := Json.isWhitespace)
      (l := f.snippit))
    rw [List.length_append] at h
    exact Nat.eq_sub_of_add_eq h
  unfold skipWhitespace
  rw [hstr]
  dsimp only
  rw [hlength]
  rfl

theorem checkEnd_eq (h : Ready flag f) : checkEnd f =
    (if f.snippit.length ≤ 1 then .error .needMoreData else .ok (), f) := by
  obtain ⟨str, hstr, hne, hpos, hend⟩ := h.str
  have hlength := List.length_pos_of_ne_nil hne
  have hsnippit : f.snippit.length = str.length - f.bufferPos := by
    rw [JsonSourceFile.snippit, hstr, List.length_drop]
    rfl
  have hiff : f.bufferEnd ≤ f.bufferPos ↔ f.snippit.length ≤ 1 := by omega
  unfold checkEnd
  by_cases hle : f.snippit.length ≤ 1
  · rw [if_pos (hiff.mpr hle), if_pos hle]
  · rw [if_neg (mt hiff.mp hle), if_neg hle]

def Comma (comma : Bool) (text : List Char) : Prop := comma = true ∧ text.head? = some ','

theorem skipComma_pos (h : Ready (some array) f) (hcomma : Comma (array && f.foundFirst) f.snippit) :
    skipComma f = checkEnd (f.seek f.snippit.tail) := by
  obtain ⟨hflags, hhead⟩ := hcomma
  rw [Bool.and_eq_true] at hflags
  have hadvance : f.advance 1 = f.seek f.snippit.tail := by
    rw [← List.drop_one]
    apply JsonSourceFile.advance_eq_seek
    apply List.length_pos_of_ne_nil
    intro hnil
    rw [hnil] at hhead
    cases hhead
  unfold skipComma
  rw [h.array_eq, if_pos ⟨congrArg some hflags.1, hflags.2, hhead⟩, hadvance]

theorem skipComma_neg (h : Ready (some array) f) (hcomma : ¬Comma (array && f.foundFirst) f.snippit) :
    skipComma f = (.ok (), f) := by
  unfold skipComma
  rw [h.array_eq, if_neg]
  intro ⟨harray, hfound, hhead⟩
  apply hcomma
  rw [Option.some.inj harray, hfound]
  exact ⟨rfl, hhead⟩

/-- `f` after a line of which `row` came. -/
def JsonSourceFile.afterLine (f : JsonSourceFile) (result : List Char × Option V) :
    JsonSourceFile :=
  { f.seek result.1 with foundFirst := f.foundFirst || result.2.isSome }

/-- What a line comes to. -/
def lineOutcome : Option V → Outcome Raised V
  | some row => .ok row
  | none => .error .needMoreData

theorem afterLine_none (rest : List Char) :
    f.afterLine (rest, (none : Option V)) = f.seek rest := by
  unfold JsonSourceFile.afterLine
  rw [Option.isSome_none, Bool.or_false]
  rfl

theorem parse_eq {rest : List Char} (hrest : rest <:+ f.snippit) (hlength : ¬rest.length ≤ 1)
    (comma : Bool) {text : List Char} (hpast : past comma text = rest) :
    parse D (f.seek rest) =
      (lineOutcome (line D comma text).2, f.afterLine (line D comma text)) := by
  unfold parse line
  rw [JsonSourceFile.snippit_seek hrest, hpast]
  dsimp only
  rw [if_neg hlength]
  cases hdecode : D.rawDecode rest with
  | none => rw [afterLine_none]; rfl
  | some decoded =>
    obtain ⟨row, n⟩ := decoded
    have hn := (D.within hdecode).2
    have hdrop : (f.seek rest).advance n = f.seek (rest.drop n) := by
      have hsnippit := JsonSourceFile.snippit_seek hrest
      rw [JsonSourceFile.advance_eq_seek (by rwa [hsnippit]), hsnippit]
      exact JsonSourceFile.seek_seek hrest (List.drop_suffix n rest)
    dsimp only
    rw [hdrop]
    unfold JsonSourceFile.afterLine lineOutcome
    rw [Option.isSome_some, Bool.or_true]

theorem past_pos {comma : Bool} {text : List Char} (hlength : ¬(Json.skip text).length ≤ 1)
    (hcomma : Comma comma (Json.skip text)) :
    past comma text = if (Json.skip text).tail.length ≤ 1 then (Json.skip text).tail
      else Json.skip (Json.skip text).tail := by
  have htail := List.length_tail (l := Json.skip text)
  unfold past
  dsimp only
  rw [if_pos ⟨hcomma.1, by omega, hcomma.2⟩]
  by_cases htwo : (Json.skip text).length = 2
  · rw [if_pos htwo, if_pos (by omega)]
  · rw [if_neg htwo, if_neg (by omega)]

theorem past_neg {comma : Bool} {text : List Char}
    (h : (Json.skip text).length ≤ 1 ∨ ¬Comma comma (Json.skip text)) :
    past comma text = Json.skip text := by
  unfold past
  dsimp only
  rw [if_neg]
  intro ⟨hcomma, hlength, hhead⟩
  cases h with
  | inl h => omega
  | inr h => exact h ⟨hcomma, hhead⟩

theorem line_short {comma : Bool} {text : List Char} (h : (past comma text).length ≤ 1) :
    line D comma text = (past comma text, none) := if_pos h

theorem skip_skip (text : List Char) : Json.skip (Json.skip text) = Json.skip text :=
  List.dropWhile_idempotent _ text

/-- The second half of `get_line`. -/
theorem parseRest_eq (h : Ready (some array) f) {comma : Bool} {text rest : List Char}
    (hrest : rest <:+ f.snippit) (hpast : past comma text = Json.skip rest) :
    (do skipWhitespace; checkEnd; parse D) (f.seek rest) =
      (lineOutcome (line D comma text).2, f.afterLine (line D comma text)) := by
  have hready := h.seek rest
  have hsnippit := JsonSourceFile.snippit_seek hrest
  have hskip := (Json.skip_suffix rest).trans hrest
  have hwhitespace := skipWhitespace_eq hready
  rw [hsnippit, JsonSourceFile.seek_seek hrest (Json.skip_suffix rest)] at hwhitespace
  rw [bind_of_ok hwhitespace]
  have hcheck := checkEnd_eq (h.seek (Json.skip rest))
  rw [JsonSourceFile.snippit_seek hskip] at hcheck
  by_cases hlength : (Json.skip rest).length ≤ 1
  · rw [if_pos hlength] at hcheck
    rw [bind_of_error hcheck, line_short (by rwa [hpast]), afterLine_none, hpast]
    rfl
  · rw [if_neg hlength] at hcheck
    rw [bind_of_ok hcheck]
    exact parse_eq hskip hlength comma hpast

/-- `get_line` reads a line of what is in the buffer. -/
theorem getLine_eq (h : Ready (some array) f) :
    getLine D f = (lineOutcome (line D (array && f.foundFirst) f.snippit).2,
      f.afterLine (line D (array && f.foundFirst) f.snippit)) := by
  have hskip := Json.skip_suffix f.snippit
  have hready := h.seek (Json.skip f.snippit)
  have hsnippit := JsonSourceFile.snippit_seek hskip
  unfold getLine
  rw [bind_of_ok (skipWhitespace_eq h)]
  have hcheck := checkEnd_eq hready
  rw [hsnippit] at hcheck
  by_cases hlength : (Json.skip f.snippit).length ≤ 1
  · rw [if_pos hlength] at hcheck
    have hpast : past (array && f.foundFirst) f.snippit = _ := past_neg (.inl hlength)
    rw [bind_of_error hcheck, line_short (by rwa [hpast]), afterLine_none, hpast]
    rfl
  rw [if_neg hlength] at hcheck
  rw [bind_of_ok hcheck]
  by_cases hcomma : Comma (array && f.foundFirst) (Json.skip f.snippit)
  · have htail := (List.tail_suffix _).trans hskip
    have hpast := past_pos hlength hcomma
    have hover := skipComma_pos hready (by rwa [hsnippit])
    rw [hsnippit, JsonSourceFile.seek_seek hskip (List.tail_suffix _)] at hover
    rw [checkEnd_eq (h.seek _), JsonSourceFile.snippit_seek htail] at hover
    by_cases hlength : (Json.skip f.snippit).tail.length ≤ 1
    · rw [if_pos hlength] at hover hpast
      rw [bind_of_error hover, line_short (by rwa [hpast]), afterLine_none, hpast]
      rfl
    · rw [if_neg hlength] at hover hpast
      rw [bind_of_ok hover]
      exact parseRest_eq h htail hpast
  · have hpast := past_neg (.inr hcomma)
    rw [bind_of_ok (skipComma_neg hready (by rwa [hsnippit]))]
    exact parseRest_eq h hskip (by rw [hpast, skip_skip])

end GetLine
/-! ### Windows -/

/-- What the reader has before it: the text it has not passed over, of which it has `seen` the first
characters; `atStart` if they are all its buffer. -/
structure Window where
  text : List Char
  seen : ℕ
  atStart : Bool
  size : ℕ
  found : Bool
  deriving Repr, DecidableEq

namespace Window

def visible (w : Window) : List Char := w.text.take w.seen

/-- Over the first `n` characters. -/
def advance (w : Window) (n : ℕ) : Window :=
  { w with text := w.text.drop n, seen := w.seen - n, atStart := w.atStart && n = 0 }

/-- `get_line`. -/
def afterLine {V : Type} (w : Window) (result : List Char × Option V) : Window :=
  { w.advance (w.seen - result.1.length) with found := w.found || result.2.isSome }

/-- The size of the buffer in `fill_buffer`. -/
def widened (maxSize : ℕ) (w : Window) : ℕ :=
  if w.atStart then min (w.size * 2) maxSize else w.size

/-- Fill a buffer of that size. -/
def refill (size : ℕ) (w : Window) : Except Raised Window :=
  if size < w.seen then
    .error (.assertionError "Can not set the read target and full the buffer")
  else if w.text.length ≤ w.seen then .error .stopIteration
  else .ok { w with size := size, seen := min (size + 1) w.text.length, atStart := true }

/-- `fill_buffer`. -/
def fill (maxSize : ℕ) (w : Window) : Except Raised Window :=
  if w.atStart ∧ w.size = maxSize then .error (.attributeError "bytes_processed")
  else w.refill (w.widened maxSize)

/-- There is room for the next character, unless all of the buffer is before the reader. -/
structure Sound (w : Window) : Prop where
  seen_le : w.seen ≤ w.text.length
  size_pos : 0 < w.size
  room : w.atStart = false → w.seen ≤ w.size
  start : w.atStart = true → 0 < w.seen ∧ w.seen ≤ w.size + 1

end Window

/-- What the reader of a file has before it. -/
def window (f : JsonSourceFile) : Window where
  text := f.snippit ++ f.source
  seen := f.snippit.length
  atStart := f.bufferPos = 0
  size := f.bufferSize
  found := f.foundFirst

section Refinement
variable {flag : Option Bool} {f : JsonSourceFile} {maxSize : ℕ}

@[simp]
theorem window_visible (f : JsonSourceFile) : (window f).visible = f.snippit :=
  List.take_left

theorem window_advance (f : JsonSourceFile) {n : ℕ} (h : n ≤ f.snippit.length) :
    window (f.advance n) = (window f).advance n := by
  unfold window Window.advance
  rw [JsonSourceFile.snippit_advance, List.length_drop, List.drop_append_of_le_length h]
  simp only [JsonSourceFile.advance, Window.mk.injEq, true_and, and_true]
  simp only [Nat.add_eq_zero_iff, Bool.decide_and]

theorem window_afterLine {V : Type} (f : JsonSourceFile) (result : List Char × Option V) :
    window (f.afterLine result) = (window f).afterLine result := by
  have hseek : window (f.seek result.1) = (window f).advance (f.snippit.length - result.1.length) :=
    window_advance f (Nat.sub_le _ _)
  unfold Window.afterLine
  have hseen : (window f).seen = f.snippit.length := rfl
  rw [hseen, ← hseek]
  rfl

theorem Ready.fields (h : Ready flag f) : ∃ str, f.bufferStr = some str ∧
    f.snippit = str.drop f.bufferPos ∧ f.snippit.length + f.bufferPos = f.bufferEnd + 1 := by
  obtain ⟨str, hstr, hne, hpos, hend⟩ := h.str
  have hlength := List.length_pos_of_ne_nil hne
  have hsnippit : f.snippit = str.drop f.bufferPos := by
    rw [JsonSourceFile.snippit, hstr]
    rfl
  refine ⟨str, hstr, hsnippit, ?_⟩
  rw [hsnippit, List.length_drop]
  omega

theorem widen_eq (h : Ready flag f) : widen maxSize f =
    if (window f).atStart ∧ (window f).size = maxSize then
      (.error (.attributeError "bytes_processed"), f)
    else (.ok (), { f with bufferSize := (window f).widened maxSize }) := by
  obtain ⟨str, hstr, -⟩ := h.str
  unfold widen Window.widened window
  by_cases hpos : f.bufferPos = 0
  · simp only [hstr, hpos, decide_true, true_and, if_true]
  · simp only [hstr, hpos, decide_false, Bool.false_eq_true, false_and, if_false]
    rw [← hstr]

/-- A relation between a file that `fill_buffer` comes from and what it comes to. -/
def Fills (flag : Option Bool) (f : JsonSourceFile) (result : Outcome Raised Unit × JsonSourceFile) :
    Except Raised Window → Prop
  | .error e => result.1 = .error e ∧ Ready flag result.2 ∧ result.2.snippit = f.snippit
  | .ok w => result.1 = .ok () ∧ Ready flag result.2 ∧ window result.2 = w

theorem slide_eq (h : Ready flag f) {newChunk : List Char} (hchunk : newChunk ≠ []) :
    Ready flag (f.slide newChunk) ∧ (f.slide newChunk).snippit = f.snippit ++ newChunk := by
  have hne : f.snippit ++ newChunk ≠ [] := List.append_ne_nil_of_right_ne_nil _ hchunk
  exact ⟨⟨⟨_, rfl, hne, Nat.zero_le _, rfl⟩, h.array_eq⟩, rfl⟩

/-- `fill_buffer` fills what the reader has before it. -/
theorem fillBuffer_fills (h : Ready flag f) :
    Fills flag f (fillBuffer maxSize f) ((window f).fill maxSize) := by
  obtain ⟨str, hstr, hsnippit, hlength⟩ := h.fields
  have hwiden : widen maxSize f = _ := widen_eq h
  unfold fillBuffer Window.fill
  by_cases hmax : (window f).atStart ∧ (window f).size = maxSize
  · rw [if_pos hmax] at hwiden ⊢
    rw [bind_of_error hwiden]
    exact ⟨rfl, h, rfl⟩
  rw [if_neg hmax] at hwiden ⊢
  rw [bind_of_ok hwiden]
  generalize (window f).widened maxSize = size
  have htarget : size + f.bufferPos - f.bufferEnd = size + 1 - f.snippit.length := by omega
  rw [bind_of_ok (show read _ _ = (.ok _, _) from rfl)]
  dsimp only
  rw [htarget]
  have hseen : (window f).seen = f.snippit.length := rfl
  rw [Window.refill, hseen]
  by_cases hsize : size < f.snippit.length
  · rw [bind_of_error (raiseIf_pos (by omega) _ _), if_pos hsize]
    exact ⟨rfl, ⟨h.str, h.array_eq⟩, rfl⟩
  rw [bind_of_ok (raiseIf_neg (by omega) _ _), if_neg hsize,
    bind_of_ok (show read _ _ = (.ok _, _) from rfl),
    bind_of_ok (show modify _ _ = (.ok (), _) from rfl)]
  have htext : (window f).text.length ≤ f.snippit.length ↔ f.source = [] := by
    change (f.snippit ++ f.source).length ≤ f.snippit.length ↔ _
    rw [List.length_append, ← List.length_eq_zero_iff]
    omega
  have hchunk : f.source.take (size + 1 - f.snippit.length) = [] ↔ f.source = [] := by
    rw [List.take_eq_nil_iff, or_iff_right (by omega)]
  by_cases hsource : f.source = []
  · rw [bind_of_error (raiseIf_pos (hchunk.mpr hsource) _ _), if_pos (htext.mpr hsource)]
    exact ⟨rfl, ⟨h.str, h.array_eq⟩, rfl⟩
  rw [bind_of_ok (raiseIf_neg (mt hchunk.mp hsource) _ _), if_neg (mt htext.mp hsource)]
  let g : JsonSourceFile := { f with
    bufferSize := size, source := f.source.drop (size + 1 - f.snippit.length) }
  have hg : Ready flag g := ⟨h.str, h.array_eq⟩
  obtain ⟨hready, hslide⟩ := slide_eq hg (mt hchunk.mp hsource)
  refine ⟨rfl, hready, ?_⟩
  change window (g.slide _) = _
  have hsnippit : g.snippit = f.snippit := rfl
  rw [hsnippit] at hslide
  unfold window
  rw [hslide, Window.mk.injEq]
  refine ⟨?_, ?_, rfl, rfl, rfl⟩
  · change _ ++ f.source.drop _ = _
    rw [List.append_assoc, List.take_append_drop]
  · rw [List.length_append, List.length_append, List.length_take]
    omega

namespace Window
variable {w w' : Window}

theorem fill_ok_iff : w.fill maxSize = .ok w' ↔ ¬(w.atStart ∧ w.size = maxSize) ∧
    w.seen ≤ w.widened maxSize ∧ w.seen < w.text.length ∧
    w' = { w with size := w.widened maxSize, atStart := true,
                  seen := min (w.widened maxSize + 1) w.text.length } := by
  unfold fill refill
  split_ifs with hmax hsize htext
  · simp [hmax]
  · simp only [false_iff]
    omega
  · simp only [false_iff]
    omega
  · rw [Except.ok.injEq, eq_comm]
    exact ⟨fun h => ⟨hmax, by omega, by omega, h⟩, fun h => h.2.2.2⟩

theorem Sound.fill (hw : w.Sound) (h : w.fill maxSize = .ok w') : w'.Sound := by
  obtain ⟨-, hsize, htext, h⟩ := fill_ok_iff.mp h
  have hpos : 0 < w.widened maxSize := by
    cases hstart : w.atStart with
    | true =>
      have hseen := hw.start hstart
      omega
    | false =>
      have hsize := hw.size_pos
      unfold widened
      rwa [hstart]
  rw [h]
  constructor
  · exact Nat.min_le_right _ _
  · exact hpos
  · intro h
    cases h
  · intro _
    dsimp only
    omega

theorem Sound.advance (hw : w.Sound) {n : ℕ} (hn : n ≤ w.seen) : (w.advance n).Sound := by
  have hseen := hw.seen_le
  unfold Window.advance
  constructor
  · dsimp only
    rw [List.length_drop]
    omega
  · exact hw.size_pos
  · intro hstart
    dsimp only at hstart ⊢
    cases h : w.atStart with
    | false =>
      have hroom := hw.room h
      omega
    | true =>
      have hroom := hw.start h
      rw [h, Bool.true_and, decide_eq_false_iff_not] at hstart
      omega
  · intro hstart
    dsimp only at hstart ⊢
    rw [Bool.and_eq_true, decide_eq_true_eq] at hstart
    have hroom := hw.start hstart.1
    omega

theorem Sound.afterLine {V : Type} (hw : w.Sound) (result : List Char × Option V) :
    (w.afterLine result).Sound := by
  have hadvance := hw.advance (n := w.seen - result.1.length) (Nat.sub_le _ _)
  exact ⟨hadvance.seen_le, hadvance.size_pos, hadvance.room, hadvance.start⟩

end Window
end Refinement

/-! ### Runs -/

section Runs
variable {V : Type} (D : JSONDecoder V) (array : Bool) (maxSize : ℕ)

/-- What `get_line` makes of what the reader sees. -/
def Window.line (w : Window) : List Char × Option V :=
  Source.line D (array && w.found) w.visible

/-- The loops over `get_line` and `fill_buffer` from `w` on: the rows that are read, the exception
that ends them, and what is left in the buffer. -/
inductive Runs : Window → List V → Raised → List Char → Prop
  | row {w : Window} {rest : List Char} {row : V} {rows : List V} {e : Raised} {left : List Char} :
    w.line D array = (rest, some row) → Runs (w.afterLine (rest, some row)) rows e left →
    Runs w (row :: rows) e left
  | refill {w w' : Window} {rest : List Char} {rows : List V} {e : Raised} {left : List Char} :
    w.line D array = (rest, none) →
    (w.afterLine (rest, (none : Option V))).fill maxSize = .ok w' → Runs w' rows e left →
    Runs w rows e left
  | unfilled {w : Window} {rest : List Char} {e : Raised} :
    w.line D array = (rest, none) →
    (w.afterLine (rest, (none : Option V))).fill maxSize = .error e → Runs w [] e rest

variable {D array maxSize}

theorem line_row_length {comma : Bool} {text rest : List Char} {row : V}
    (h : Source.line D comma text = (rest, some row)) : rest.length < text.length := by
  have hpast := ((past_suffix comma text).trans (Json.skip_suffix text)).length_le
  unfold Source.line at h
  dsimp only at h
  split_ifs at h with hlength
  · cases h
  · cases hdecode : D.rawDecode (past comma text) with
    | none =>
      rw [hdecode] at h
      cases h
    | some decoded =>
      rw [hdecode] at h
      cases h
      have hn := D.within hdecode
      rw [List.length_drop]
      omega

theorem Window.visible_length {w : Window} (hw : w.Sound) : w.visible.length = w.seen := by
  rw [visible, List.length_take, Nat.min_eq_left hw.seen_le]

/-- A run comes to an end: every line takes something of the text, and every buffer shows more of
it. -/
theorem runs_total (w : Window) (hw : w.Sound) :
    ∃ rows e left, Runs D array maxSize w rows e left := by
  induction hmeasure : 2 * w.text.length - w.seen using Nat.strong_induction_on generalizing w with
  | _ n ih =>
    have hseen := hw.seen_le
    rcases hline : w.line D array with ⟨rest, row⟩
    have hafter := hw.afterLine (rest, row)
    cases row with
    | some row =>
      have hrest := line_row_length hline
      rw [w.visible_length hw] at hrest
      have hless : 2 * (w.text.drop (w.seen - rest.length)).length - (w.seen - (w.seen - rest.length))
          < n := by
        rw [List.length_drop]
        omega
      obtain ⟨rows, e, left, h⟩ := ih _ hless _ hafter rfl
      exact ⟨_, _, _, .row hline h⟩
    | none =>
      cases hfill : (w.afterLine (rest, (none : Option V))).fill maxSize with
      | error e => exact ⟨_, _, _, .unfilled hline hfill⟩
      | ok w' =>
        have hless : 2 * w'.text.length - w'.seen < n := by
          obtain ⟨-, hsize, htext, h⟩ := Window.fill_ok_iff.mp hfill
          have hdrop : (w.afterLine (rest, (none : Option V))).text.length ≤ w.text.length :=
            (List.drop_suffix _ _).length_le
          have hleft := hafter.seen_le
          have htext : w'.text = (w.afterLine (rest, (none : Option V))).text := by rw [h]
          have hmore : w'.seen = min (Window.widened maxSize (w.afterLine (rest, (none : Option V))) + 1)
              (w.afterLine (rest, (none : Option V))).text.length := by rw [h]
          have hkept : (w.afterLine (rest, (none : Option V))).seen = w.seen - (w.seen - rest.length) :=
            rfl
          have hdropped : (w.afterLine (rest, (none : Option V))).text.length =
              w.text.length - (w.seen - rest.length) := List.length_drop
          rw [htext]
          omega
        obtain ⟨rows, e, left, h⟩ := ih _ hless w' (hafter.fill hfill) rfl
        exact ⟨_, _, _, .refill hline hfill h⟩

end Runs

/-! ### The loops of `batches` -/

section Turns
variable {V : Type} {D : JSONDecoder V} {maxSize : ℕ} {b : ℤ} {j : Job V} {f : JsonSourceFile}
  {flag : Option Bool}

/-- A turn, once the buffer is filled. -/
def readOrYield (D : JSONDecoder V) (b : ℤ) : Prog (Job V) Raised Bool := do
  if ← read fun j => decide ((j.batch.length : ℤ) < b) then readRow D
  else modify Job.yieldBatch
  pure true

theorem turn_eq (hmore : j.needMoreData = false) :
    turn D maxSize b j = readOrYield D b j := by
  unfold turn
  rw [bind_of_ok (show read _ _ = (.ok _, _) from rfl), hmore]
  rfl

theorem turn_filled (hmore : j.needMoreData = true) (hfill : fillBuffer maxSize j.file = (.ok (), f)) :
    turn D maxSize b j = readOrYield D b { j with file := f, needMoreData := false } := by
  have hfile : onFile (fillBuffer maxSize) j = (.ok (), j.setFile f) := by
    unfold onFile zoom
    rw [hfill]
  unfold turn
  rw [bind_of_ok (show read _ _ = (.ok _, _) from rfl), hmore, if_pos rfl, bind_of_ok hfile]
  rfl

theorem turn_unfilled {e : Raised} (hmore : j.needMoreData = true)
    (hfill : fillBuffer maxSize j.file = (.error e, f)) :
    turn D maxSize b j = (.error e, j.setFile f) := by
  have hfile : onFile (fillBuffer maxSize) j = (.error e, j.setFile f) := by
    unfold onFile zoom
    rw [hfill]
  unfold turn
  rw [bind_of_ok (show read _ _ = (.ok _, _) from rfl), hmore, if_pos rfl, bind_of_error hfile]

theorem readOrYield_full (hfull : ¬(j.batch.length : ℤ) < b) :
    readOrYield D b j = (.ok true, j.yieldBatch) := by
  unfold readOrYield
  rw [bind_of_ok (show read _ _ = (.ok _, _) from rfl), decide_eq_false hfull]
  rfl

theorem readOrYield_row {row : V} (hbatch : (j.batch.length : ℤ) < b)
    (hline : getLine D j.file = (.ok row, f)) :
    readOrYield D b j = (.ok true, { j with file := f, batch := j.batch ++ [row] }) := by
  have hrow : readRow D j = (.ok (), { j with file := f, batch := j.batch ++ [row] }) := by
    have hfile : onFile (getLine D) j = (.ok row, j.setFile f) := by
      unfold onFile zoom
      rw [hline]
    unfold readRow handle
    rw [bind_of_ok hfile]
    rfl
  unfold readOrYield
  rw [bind_of_ok (show read _ _ = (.ok _, _) from rfl), decide_eq_true hbatch]
  exact bind_of_ok hrow _

theorem readOrYield_needMoreData (hbatch : (j.batch.length : ℤ) < b)
    (hline : getLine D j.file = (.error .needMoreData, f)) :
    readOrYield D b j = (.ok true, { j with file := f, needMoreData := true }) := by
  have hrow : readRow D j = (.ok (), { j with file := f, needMoreData := true }) := by
    have hfile : onFile (getLine D) j = (.error .needMoreData, j.setFile f) := by
      unfold onFile zoom
      rw [hline]
    unfold readRow handle
    rw [bind_of_error hfile]
    rfl
  unfold readOrYield
  rw [bind_of_ok (show read _ _ = (.ok _, _) from rfl), decide_eq_true hbatch]
  exact bind_of_ok hrow _

/-- The rows that a job has come to, in batches of `b`. -/
structure Batched (b : ℕ) (rows : List V) (j : Job V) : Prop where
  flatten_eq : j.yielded.flatten ++ j.batch = rows
  full : ∀ batch ∈ j.yielded, batch.length = b
  batch_le : j.batch.length ≤ b

theorem Batched.append {b : ℕ} {rows : List V} (h : Batched b rows j) (hbatch : j.batch.length < b)
    (row : V) :
    Batched b (rows ++ [row]) { j with file := f, batch := j.batch ++ [row] } := by
  constructor
  · dsimp only
    rw [← h.flatten_eq, List.append_assoc]
  · exact h.full
  · dsimp only
    rw [List.length_append]
    exact hbatch

theorem Batched.yieldBatch {b : ℕ} {rows : List V} (h : Batched b rows j)
    (hbatch : j.batch.length = b) : Batched b rows j.yieldBatch := by
  unfold Job.yieldBatch
  constructor
  · dsimp only
    rw [List.flatten_concat, List.append_nil, h.flatten_eq]
  · intro batch hmem
    cases List.mem_append.mp hmem with
    | inl hmem => exact h.full batch hmem
    | inr hmem => rw [List.mem_singleton.mp hmem, hbatch]
  · exact Nat.zero_le b

/-- A job about to call `get_line`, with `w` before it and `rows` behind it. -/
structure At (array : Bool) (b : ℕ) (w : Window) (rows : List V) (j : Job V) : Prop where
  needMoreData : j.needMoreData = false
  ready : Ready (some array) j.file
  window_eq : window j.file = w
  batched : Batched b rows j

/-- The loops end with `e` after `rows`, with `left` in the buffer. -/
def Stops (D : JSONDecoder V) (maxSize b : ℕ) (array : Bool) (rows : List V) (e : Raised)
    (left : List Char) (j : Job V) : Prop :=
  ∃ j', Ends (turn D maxSize b) j (.error e) j' ∧ Batched b rows j' ∧ j'.batch.length < b ∧
    Ready (some array) j'.file ∧ j'.file.snippit = left

variable {b : ℕ} {array : Bool} {w : Window} {rows : List V} {e : Raised} {left : List Char}

/-- A full batch is yielded first. -/
theorem stops_of_room (hb : 0 < b) {all : List V} (hat : At array b w rows j)
    (h : ∀ j, At array b w rows j → j.batch.length < b → Stops D maxSize b array all e left j) :
    Stops D maxSize b array all e left j := by
  by_cases hbatch : j.batch.length < b
  · exact h j hat hbatch
  · have hlength : j.batch.length = b := Nat.le_antisymm hat.batched.batch_le (Nat.not_lt.mp hbatch)
    have hturn : turn D maxSize b j = (.ok true, j.yieldBatch) := by
      rw [turn_eq hat.needMoreData]
      exact readOrYield_full (by omega)
    have hat' : At array b w rows j.yieldBatch :=
      ⟨hat.needMoreData, hat.ready, hat.window_eq, hat.batched.yieldBatch hlength⟩
    obtain ⟨j', hends, hstops⟩ := h j.yieldBatch hat' hb
    exact ⟨j', hends.step hturn, hstops⟩

theorem Ready.afterLine (h : Ready flag f) (result : List Char × Option V) :
    Ready flag (f.afterLine result) := by
  have hseek := h.seek result.1
  exact ⟨hseek.str, hseek.array_eq⟩

theorem At.getLine_eq (hat : At array b w rows j) : getLine D j.file =
    (lineOutcome (w.line D array).2, j.file.afterLine (w.line D array)) := by
  have hline : w.line D array = line D (array && j.file.foundFirst) j.file.snippit := by
    rw [← hat.window_eq, Window.line, window_visible]
    rfl
  rw [hline, Source.getLine_eq hat.ready]

theorem At.afterLine_window (hat : At array b w rows j) (result : List Char × Option V) :
    window (j.file.afterLine result) = w.afterLine result := by
  rw [window_afterLine, hat.window_eq]

/-- A line that is not complete, and the buffer that is filled for it. -/
theorem At.fillBuffer_fills (hat : At array b w rows j) (maxSize : ℕ) (rest : List Char) :
    Fills (some array) (j.file.seek rest) (fillBuffer maxSize (j.file.seek rest))
      ((w.afterLine (rest, (none : Option V))).fill maxSize) := by
  have hwindow := hat.afterLine_window (rest, (none : Option V))
  rw [afterLine_none] at hwindow
  rw [← hwindow]
  exact Source.fillBuffer_fills (hat.ready.seek rest)

theorem At.snippit_seek (hat : At array b w rows j) {rest : List Char} {row : Option V}
    (hline : w.line D array = (rest, row)) : (j.file.seek rest).snippit = rest := by
  apply JsonSourceFile.snippit_seek
  have hsuffix := line_suffix D (array && w.found) w.visible
  unfold Window.line at hline
  rw [hline] at hsuffix
  rwa [← hat.window_eq, window_visible] at hsuffix

theorem At.turn_short (hat : At array b w rows j) (hbatch : j.batch.length < b)
    {rest : List Char} (hline : w.line D array = (rest, none)) :
    turn D maxSize b j =
      (.ok true, { j with file := j.file.seek rest, needMoreData := true }) := by
  have hget := hat.getLine_eq (D := D)
  rw [hline, afterLine_none] at hget
  rw [turn_eq hat.needMoreData]
  exact readOrYield_needMoreData (by omega) hget

/-- The loops of `batches` run as `Runs` says. -/
theorem runs_stops (hb : 0 < b) (hruns : Runs D array maxSize w rows e left) {prior : List V}
    (hat : At array b w prior j) : Stops D maxSize b array (prior ++ rows) e left j := by
  induction hruns generalizing j prior with
  | @row w rest row rows e left hline _ ih =>
    apply stops_of_room hb hat
    intro j hat hbatch
    have hget := hat.getLine_eq (D := D)
    rw [hline] at hget
    have hturn : turn D maxSize b j = (.ok true, { j with
        file := j.file.afterLine (rest, some row), batch := j.batch ++ [row] }) := by
      rw [turn_eq hat.needMoreData]
      exact readOrYield_row (by omega) hget
    have hat' := ih (j := { j with
        file := j.file.afterLine (rest, some row), batch := j.batch ++ [row] })
      ⟨hat.needMoreData, hat.ready.afterLine _, hat.afterLine_window _,
        hat.batched.append hbatch row⟩
    rw [List.append_assoc] at hat'
    obtain ⟨j', hends, hstops⟩ := hat'
    exact ⟨j', hends.step hturn, hstops⟩
  | @refill w w' rest rows e left hline hfill _ ih =>
    apply stops_of_room hb hat
    intro j hat hbatch
    have hfills := hat.fillBuffer_fills maxSize rest
    rw [hfill] at hfills
    obtain ⟨hok, hready, hwindow⟩ := hfills
    have hfilled := turn_filled (D := D) (b := b) (j := { j with
      file := j.file.seek rest, needMoreData := true }) rfl (Prod.ext hok rfl)
    have hat' : At array b w' prior { j with
        file := (fillBuffer maxSize (j.file.seek rest)).2, needMoreData := false } :=
      ⟨rfl, hready, hwindow, ⟨hat.batched.flatten_eq, hat.batched.full, hat.batched.batch_le⟩⟩
    obtain ⟨j', hends, hstops⟩ := ih hat'
    have hsame : _ = turn D maxSize b _ := hfilled.trans (turn_eq rfl).symm
    exact ⟨j', (hends.congr hsame).step (hat.turn_short hbatch hline), hstops⟩
  | @unfilled w rest e hline hfill =>
    apply stops_of_room hb hat
    intro j hat hbatch
    have hfills := hat.fillBuffer_fills maxSize rest
    rw [hfill] at hfills
    obtain ⟨herror, hready, hsnippit⟩ := hfills
    have hover := turn_unfilled (D := D) (b := b) (j := { j with
      file := j.file.seek rest, needMoreData := true }) rfl (Prod.ext herror rfl)
    refine ⟨_, (Ends.error hover).step (hat.turn_short hbatch hline), ?_, hbatch, hready, ?_⟩
    · rw [List.append_nil]
      exact ⟨hat.batched.flatten_eq, hat.batched.full, hat.batched.batch_le⟩
    · exact hsnippit.trans (hat.snippit_seek hline)

end Turns
end RethinkDB.Import.Source
