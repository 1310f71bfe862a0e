import Mathlib.Tactic.FieldSimp
import Mathlib.Tactic.Linarith
import Mathlib.Tactic.Positivity
import Mathlib.Tactic.Ring
import RethinkDB.Import.JsonSource
import RethinkDB.Lib.Machine

/-! `SourceFile.percent_done`, over the counters that the reader of a source and the writers share. -/
namespace RethinkDB.Import.Progress
open RethinkDB.Lib

structure Counters where
  bytesSize : ℤ
  bytesRead : ℤ
  totalRows : ℤ
  rowsRead : ℤ
  rowsWritten : ℤ
  deriving Repr, DecidableEq

inductive PercentExn where
  | zeroDivision
  | type
  deriving Repr, DecidableEq

/-- `x / y`, over the rationals. -/
def divide (x y : ℚ) : Except PercentExn ℚ := if y = 0 then .error .zeroDivision else .ok (x / y)

namespace Counters

def readPercentage (c : Counters) : Except PercentExn ℚ :=
  if c.bytesSize ≤ 0 ∨ c.bytesSize ≤ c.bytesRead then .ok 1
  else if c.bytesRead < 0 ∧ 0 ≤ c.totalRows then
    -- the counter `_rows_read` itself is compared with 0, not its value
    .error .type
  else if 0 < c.bytesRead then divide c.bytesRead c.bytesSize
  else .ok 0

def writtenPercentage (c : Counters) : Except PercentExn ℚ :=
  if c.rowsRead ≠ 0 ∨ c.rowsWritten ≠ 0 then
    if c.totalRows = 0 then .ok 1
    else if c.totalRows < 0 then do
      let perRowSize ← divide c.bytesRead c.rowsRead
      let rest ← divide (c.bytesSize - c.bytesRead : ℤ) perRowSize
      divide c.rowsWritten (c.rowsRead + rest)
    else divide c.rowsWritten c.totalRows
  else .ok 0

def percentDone (c : Counters) : Except PercentExn ℚ := do
  let read ← c.readPercentage
  let written ← c.writtenPercentage
  return (read + written) * (1 / 2)

/-- The value is a fraction. -/
def Proper (c : Counters) : Prop := ∃ q, c.percentDone = .ok q ∧ 0 ≤ q ∧ q ≤ 1

end Counters

/-! ### What a JSON source has read -/

section JsonSource
open Prog Source

/-- What has been read is in `bytesRead`, and some of it in the buffer; at least `least` of it. -/
structure Counted (text : List Char) (least : ℤ) (f : JsonSourceFile) : Prop where
  read : f.bytesRead + 1 + f.source.length = text.length
  buffered : ((f.bufferStr.getD []).length : ℤ) ≤ f.bytesRead + 1
  bufferEnd : f.bufferEnd ≤ (f.bufferStr.getD []).length - 1
  least_le : least ≤ f.bytesRead

/-- Only the position and the flags differ. -/
def Moved (f f' : JsonSourceFile) : Prop :=
  f'.source = f.source ∧ f'.bufferStr = f.bufferStr ∧ f'.bufferEnd = f.bufferEnd ∧
    f'.bytesRead = f.bytesRead

instance : Std.Refl Moved := ⟨fun _ => ⟨rfl, rfl, rfl, rfl⟩⟩

instance : IsTrans JsonSourceFile Moved := ⟨fun _ _ _ h h' =>
  ⟨h'.1.trans h.1, h'.2.1.trans h.2.1, h'.2.2.1.trans h.2.2.1, h'.2.2.2.trans h.2.2.2⟩⟩

variable {V : Type} {D : JSONDecoder V} {maxSize : ℕ} {text : List Char} {least : ℤ}
  {f f' : JsonSourceFile}

theorem Counted.moved (h : Counted text least f) (hmoved : Moved f f') : Counted text least f' := by
  obtain ⟨hsource, hstr, hend, hbytes⟩ := hmoved
  constructor
  · rw [hsource, hbytes]
    exact h.read
  · rw [hstr, hbytes]
    exact h.buffered
  · rw [hstr, hend]
    exact h.bufferEnd
  · rw [hbytes]
    exact h.least_le

theorem skipWhitespace_moved : Respects Moved skipWhitespace := by
  intro f
  unfold skipWhitespace wp
  dsimp only
  split
  · exact ⟨by simp, Std.Refl.refl f⟩
  · exact ⟨by simp, rfl, rfl, rfl, rfl⟩

theorem checkEnd_moved : Respects Moved checkEnd := by
  intro f
  unfold checkEnd wp
  dsimp only
  split
  · exact ⟨by simp, Std.Refl.refl f⟩
  · exact ⟨by simp, Std.Refl.refl f⟩

theorem skipComma_moved : Respects Moved skipComma := by
  intro f
  unfold skipComma wp
  dsimp only
  split
  · have hadvance : Moved f (f.advance 1) := ⟨rfl, rfl, rfl, rfl⟩
    obtain ⟨hback, hmoved⟩ := checkEnd_moved (f.advance 1)
    exact ⟨hback, IsTrans.trans _ _ _ hadvance hmoved⟩
  · exact ⟨by simp, Std.Refl.refl f⟩

theorem parse_moved : Respects Moved (parse D) := by
  intro f
  unfold parse wp
  dsimp only
  split
  · exact ⟨by simp, rfl, rfl, rfl, rfl⟩
  · exact ⟨by simp, Std.Refl.refl f⟩

/-- A row comes only of a buffer of two characters. -/
theorem getLine_counted (h : Counted text least f) : wp (getLine D) (fun o f' =>
    o ≠ .running ∧ Counted text least f' ∧ ∀ row, o = .ok row → 1 ≤ f'.bytesRead) f := by
  have herr : ∀ (e : Raised) f', Moved f f' → (Outcome.error e : Outcome Raised V) ≠ .running ∧
      Counted text least f' ∧ ∀ row, (Outcome.error e : Outcome Raised V) = .ok row →
        1 ≤ f'.bytesRead :=
    fun e f' hmoved => ⟨by simp, h.moved hmoved, fun _ heq => by cases heq⟩
  have hrest : Respects Moved (do skipComma; skipWhitespace; checkEnd; parse D) :=
    skipComma_moved.bind fun _ => skipWhitespace_moved.bind fun _ =>
      checkEnd_moved.bind fun _ => parse_moved
  unfold getLine
  apply skipWhitespace_moved.wp_bind herr
  intro _ f₁ hmoved₁
  by_cases hend : f₁.bufferEnd ≤ f₁.bufferPos
  · have hcheck : checkEnd f₁ = (.error .needMoreData, f₁) := if_pos hend
    unfold wp
    rw [bind_of_error hcheck]
    exact herr _ _ hmoved₁
  · have hcheck : checkEnd f₁ = (.ok (), f₁) := if_neg hend
    apply (wp_bind_of_eq hcheck).mpr
    obtain ⟨hback, hmoved₂⟩ := hrest f₁
    have hcounted := (h.moved hmoved₁).moved hmoved₂
    refine ⟨hback, hcounted, fun _ _ => ?_⟩
    have hbuffered := hcounted.buffered
    have hend' := hcounted.bufferEnd
    rw [hmoved₂.2.2.1] at hend'
    omega

theorem fillBuffer_counted : Maintains (Counted text least) (Counted text least)
    (fillBuffer maxSize) := by
  have hkeep : ∀ (f' : JsonSourceFile) (o : Outcome Raised Unit), Counted text least f' →
      (o = .running → Counted text least f') ∧ (o ≠ .running → Counted text least f') :=
    fun f' o h => ⟨fun _ => h, fun _ => h⟩
  have hwiden : Maintains (Counted text least) (Counted text least) (widen maxSize) := by
    intro f h
    unfold widen wp
    dsimp only
    split
    · rename_i hnone
      refine hkeep _ _ ⟨h.read, ?_, Nat.zero_le _, h.least_le⟩
      have hbuffered := h.buffered
      rw [hnone] at hbuffered
      exact hbuffered
    · split
      · split
        · exact hkeep _ _ h
        · exact hkeep _ _ ⟨h.read, h.buffered, h.bufferEnd, h.least_le⟩
      · exact hkeep _ _ h
  apply hwiden.bind
  intro _ f h
  rw [wp_bind, wp_read, bindPost_ok]
  apply wp_raiseIf_bind (fun _ => hkeep _ _ h)
  intro htarget
  rw [wp_bind, wp_read, bindPost_ok, wp_bind, wp_modify, bindPost_ok]
  have hread := h.read
  have hlength := congrArg List.length
    (List.take_append_drop (f.bufferSize + f.bufferPos - f.bufferEnd) f.source)
  rw [List.length_append] at hlength
  apply wp_raiseIf_bind
  · intro hnone
    rw [hnone] at hlength
    refine hkeep _ _ ⟨?_, h.buffered, h.bufferEnd, h.least_le⟩
    dsimp only
    rw [List.length_nil] at hlength
    omega
  · intro _
    rw [wp_modify]
    have hsnippit : f.snippit.length ≤ (f.bufferStr.getD []).length := by
      rw [JsonSourceFile.snippit, List.length_drop]
      exact Nat.sub_le _ _
    have hbuffered := h.buffered
    have hleast := h.least_le
    refine hkeep _ _ ⟨?_, ?_, Nat.le_refl _, ?_⟩
    · change f.bytesRead + _ + 1 + ((f.source.drop _).length : ℤ) = _
      omega
    · change ((f.snippit ++ _).length : ℤ) ≤ f.bytesRead + _ + 1
      rw [List.length_append]
      omega
    · change least ≤ f.bytesRead + _
      omega

theorem maintains_of_moved {m : Prog JsonSourceFile Raised Unit} (hm : Respects Moved m) :
    Maintains (Counted text least) (Counted text least) m :=
  hm.maintains fun _ _ hmoved h => h.moved hmoved

theorem setupFile_counted (fuel : ℕ) : Maintains (Counted text least) (Counted text least)
    (setupFile maxSize fuel) := by
  have hturn : Maintains (Counted text least) (Counted text least) (setupTurn maxSize) := by
    apply fillBuffer_counted.bind
    intro _
    apply Maintains.bind
    · apply maintains_of_moved
      apply respects_modify
      exact fun _ => ⟨rfl, rfl, rfl, rfl⟩
    intro _
    exact (maintains_of_moved skipWhitespace_moved).bind fun _ => maintains_read _
  have hfirst : Respects Moved checkFirst := by
    intro f
    unfold checkFirst wp
    dsimp only
    split
    all_goals exact ⟨by simp, rfl, rfl, rfl, rfl⟩
  exact (maintains_turns hturn fuel).bind fun _ => maintains_of_moved hfirst

theorem teardown_counted : Maintains (Counted text least) (Counted text least) teardown := by
  have hbracket : Respects Moved checkBracket := by
    intro f
    unfold checkBracket wp
    dsimp only
    split
    · split
      · exact ⟨by simp, rfl, rfl, rfl, rfl⟩
      · split
        all_goals exact ⟨by simp, rfl, rfl, rfl, rfl⟩
    · exact ⟨by simp, rfl, rfl, rfl, rfl⟩
  have hrest : Respects Moved checkRest := by
    intro f
    unfold checkRest wp
    dsimp only
    split
    all_goals exact ⟨by simp, rfl, rfl, rfl, rfl⟩
  exact maintains_of_moved (skipWhitespace_moved.bind fun _ => hbracket.bind fun _ =>
    skipWhitespace_moved.bind fun _ => hrest)

/-- Once there is a row, two characters have been read. -/
def JobCounted (text : List Char) (j : Job V) : Prop :=
  ∃ least, Counted text least j.file ∧ (j.batch = [] ∧ j.yielded = [] ∨ 1 ≤ least)

theorem onFile_counted {m : Prog JsonSourceFile Raised Unit}
    (hm : ∀ least, Maintains (Counted text least) (Counted text least) m) :
    Maintains (JobCounted text) (JobCounted (V := V) text) (onFile m) := by
  intro j ⟨least, hcounted, hrows⟩
  unfold onFile
  rw [wp_zoom]
  apply (hm least j.file hcounted).mono
  intro o f hover
  exact ⟨fun ho => ⟨least, hover.1 ho, hrows⟩, fun ho => ⟨least, hover.2 ho, hrows⟩⟩

theorem readRow_counted : Maintains (JobCounted text) (JobCounted text) (readRow D) := by
  intro j ⟨least, hcounted, hrows⟩
  unfold readRow
  rw [wp_handle, wp_bind]
  unfold onFile
  rw [wp_zoom]
  apply (getLine_counted hcounted).mono
  intro o f ⟨hback, hcounted', hrow⟩
  cases o with
  | ok row =>
    rw [bindPost_ok, wp_modify]
    have hread : Counted text 1 f :=
      ⟨hcounted'.read, hcounted'.buffered, hcounted'.bufferEnd, hrow row rfl⟩
    exact ⟨fun ho => (by cases ho), fun _ => ⟨1, hread, .inr (Int.le_refl _)⟩⟩
  | error e =>
    have hkept : JobCounted text (j.setFile f) := ⟨least, hcounted', hrows⟩
    cases e with
    | needMoreData => exact ⟨fun ho => (by cases ho), fun _ => hkept⟩
    | _ => exact ⟨fun ho => (by cases ho), fun _ => hkept⟩
  | running => exact absurd rfl hback

theorem JobCounted.yieldBatch {j : Job V} (h : JobCounted text j) (hne : j.batch ≠ []) :
    JobCounted text j.yieldBatch := by
  obtain ⟨least, hcounted, hrows⟩ := h
  exact ⟨least, hcounted, .inr (hrows.resolve_left fun hnone => hne hnone.1)⟩

theorem turn_counted {b : ℤ} (hb : 0 < b) :
    Maintains (JobCounted text) (JobCounted text) (turn D maxSize b) := by
  have hrest : Maintains (JobCounted text) (JobCounted text) (do
      if ← read fun j : Job V => decide ((j.batch.length : ℤ) < b) then readRow D
      else modify Job.yieldBatch
      pure true) := by
    intro j hj
    rw [wp_bind, wp_read, bindPost_ok]
    by_cases hroom : (j.batch.length : ℤ) < b
    · rw [if_pos (decide_eq_true hroom)]
      exact (readRow_counted.bind fun _ => maintains_pure _) j hj
    · rw [if_neg (by simpa using hroom)]
      have hne : j.batch ≠ [] := by
        intro hnil
        rw [hnil, List.length_nil] at hroom
        exact hroom hb
      exact ⟨fun ho => (by cases ho), fun _ => hj.yieldBatch hne⟩
  unfold turn
  apply (maintains_read _).bind
  intro more
  apply Maintains.ite
  · apply (onFile_counted fun _ => fillBuffer_counted).bind
    intro _
    apply Maintains.bind _ fun _ => hrest
    intro j hj
    exact ⟨fun ho => (by cases ho), fun _ => hj⟩
  · exact hrest

theorem finish_counted : Maintains (JobCounted text) (JobCounted (V := V) text) finish := by
  apply Maintains.bind _ fun _ => onFile_counted fun _ => teardown_counted
  intro j hj
  rw [wp_modify]
  refine ⟨fun ho => (by cases ho), fun _ => ?_⟩
  split
  · exact hj
  · rename_i hne
    exact hj.yieldBatch hne

/-- Between two steps of `batches` as much has been read as the reader of a JSON source is taken to
have read below. -/
theorem batches_counted (b : Option ℤ) (fuel size : ℕ) :
    let j := (batches D maxSize b fuel (.init text size)).2
    j.file.bytesRead < text.length ∧ (j.yielded ≠ [] → 1 ≤ j.file.bytesRead) := by
  have hinit : JobCounted (V := V) text (.init text size) := by
    refine ⟨-1, ⟨?_, Int.le_refl _, Nat.le_refl _, Int.le_refl _⟩, .inl ⟨rfl, rfl⟩⟩
    change -1 + 1 + (text.length : ℤ) = text.length
    omega
  have hall : wp (batches D maxSize b fuel) (fun _ j => JobCounted text j) (.init text size) := by
    unfold batches
    apply wp_raiseIf_bind (fun _ => hinit)
    intro hpos
    have hloops : Maintains (JobCounted text) (JobCounted text)
        (turns (turn D maxSize (b.getD defaultBatchSize)) fuel) :=
      maintains_turns (turn_counted (not_le.mp hpos)) fuel
    have hsetup : Maintains (JobCounted text) (JobCounted text)
        (onFile (V := V) (setupFile maxSize fuel)) :=
      onFile_counted fun _ => setupFile_counted fuel
    apply (hsetup.bind (fun _ => hloops.handle _) _ hinit).mono
    · intro o j hover
      by_cases ho : o = .running
      · exact hover.1 ho
      · exact hover.2 ho
    · intro _ e
      cases e with
      | stopIteration => exact finish_counted
      | _ => exact maintains_throw _
  obtain ⟨least, hcounted, hrows⟩ := hall
  have hread := hcounted.read
  have hleast := hcounted.least_le
  constructor
  · omega
  · intro hyielded
    have hone := hrows.resolve_left fun hnone => hyielded hnone.2
    omega

end JsonSource

/-! ### The reader and the writers -/

inductive Format where
  | json | csv
  deriving Repr, DecidableEq

/-- Without so many characters there is no row. -/
def Format.least : Format → ℤ
  | json => 2
  | csv => 1

/-- A source on its way: `uncounted` are the rows of a batch that is on the queue and not counted as
read, and `writing` the rows that each writer with a batch has not counted as written. -/
structure State where
  counters : Counters
  uncounted : Option ℕ
  queue : List ℕ
  writing : List ℕ
  deriving Repr, DecidableEq

def init (size : ℕ) : State := ⟨⟨size, -1, -1, 0, 0⟩, none, [], []⟩

inductive Event where
  | read (chars : ℕ)
  | put (rows : ℕ)
  | count
  | get
  | written (writer rows : ℕ)
  deriving Repr, DecidableEq

def State.onCounters (f : Counters → Counters) (s : State) : State :=
  { s with counters := f s.counters }

/-- A character takes at least a byte, and the reader reads no further before it has counted what
it has put on the queue. -/
def step (format : Format) (s : State) : Event → Option State
  | .read chars =>
    if s.uncounted = none ∧ 0 < chars ∧ s.counters.bytesRead + chars < s.counters.bytesSize then
      some (s.onCounters fun c => { c with bytesRead := c.bytesRead + chars })
    else none
  | .put rows =>
    if s.uncounted = none ∧ 0 < rows ∧ format.least ≤ s.counters.bytesRead + 1 then
      some { s with uncounted := some rows, queue := s.queue ++ [rows] }
    else none
  | .count => match s.uncounted with
    | some rows =>
      some { s.onCounters fun c => { c with rowsRead := c.rowsRead + rows } with uncounted := none }
    | none => none
  | .get => match s.queue with
    | rows :: queue => some { s with queue := queue, writing := s.writing ++ [rows] }
    | [] => none
  | .written writer rows =>
    if rows ≤ s.writing.getD writer 0 then
      some { s.onCounters fun c => { c with rowsWritten := c.rowsWritten + rows } with
        writing := s.writing.set writer (s.writing.getD writer 0 - rows) }
    else none

def machine (format : Format) (size : ℕ) : Machine State Event where
  init s := s = init size
  step s e s' := step format s e = some s'

/-- No rows are counted as written before they are counted as read, and no row as read after a
single character. -/
def Settled (s : State) : Event → Prop
  | .written _ rows => s.counters.rowsWritten + rows ≤ s.counters.rowsRead
  | .count => 0 < s.counters.bytesRead
  | _ => True

instance (s : State) (e : Event) : Decidable (Settled s e) := match e with
  | .written _ _ => inferInstanceAs (Decidable (_ ≤ _))
  | .count => inferInstanceAs (Decidable (_ < _))
  | .read _ | .put _ | .get => inferInstanceAs (Decidable True)

structure Counters.Sound (c : Counters) (size : ℕ) : Prop where
  size_pos : 0 < size
  bytesSize : c.bytesSize = size
  bytesRead : c.bytesRead < size ∧ -1 ≤ c.bytesRead
  totalRows : c.totalRows = -1
  rowsRead : 0 ≤ c.rowsRead
  rowsWritten : 0 ≤ c.rowsWritten
  afterBytes : 0 < c.rowsRead → 0 ≤ c.bytesRead

section Percent
variable {c : Counters} {size : ℕ}

theorem readPercentage_eq (h : c.Sound size) :
    c.readPercentage = .ok (max (c.bytesRead : ℚ) 0 / size) := by
  have hpos := h.size_pos
  have hsize := h.bytesSize
  have hread := h.bytesRead
  have htotal := h.totalRows
  unfold Counters.readPercentage
  rw [if_neg (by omega), if_neg (by omega)]
  by_cases hbytes : 0 < c.bytesRead
  · have hsize_ne : (c.bytesSize : ℚ) ≠ 0 := by
      rw [Int.cast_ne_zero]
      omega
    have hmax : max (c.bytesRead : ℚ) 0 = c.bytesRead := by
      apply max_eq_left
      exact_mod_cast hbytes.le
    rw [if_pos hbytes, divide, if_neg hsize_ne, hmax, hsize, Int.cast_natCast]
  · have hmax : max (c.bytesRead : ℚ) 0 = 0 := by
      apply max_eq_right
      exact_mod_cast not_lt.mp hbytes
    rw [if_neg hbytes, hmax, zero_div]

theorem writtenPercentage_eq (h : c.Sound size) (hbytes : 0 < c.bytesRead) (hrows : 0 < c.rowsRead) :
    c.writtenPercentage = .ok (c.rowsWritten * c.bytesRead / (c.rowsRead * size) : ℚ) := by
  have hpos := h.size_pos
  have hsize := h.bytesSize
  have hread := h.bytesRead
  have htotal := h.totalRows
  have hbytes' : (0 : ℚ) < c.bytesRead := by exact_mod_cast hbytes
  have hrows' : (0 : ℚ) < c.rowsRead := by exact_mod_cast hrows
  have hsize' : (0 : ℚ) < size := Nat.cast_pos.mpr h.size_pos
  have hperRow : (c.bytesRead / c.rowsRead : ℚ) ≠ 0 := (div_pos hbytes' hrows').ne'
  have hrows_total : (c.rowsRead + (c.bytesSize - c.bytesRead : ℤ) / (c.bytesRead / c.rowsRead) : ℚ) =
      c.rowsRead * size / c.bytesRead := by
    rw [hsize]
    push_cast
    field_simp
    ring
  have htotal_ne : (c.rowsRead * size / c.bytesRead : ℚ) ≠ 0 := by positivity
  unfold Counters.writtenPercentage
  rw [if_pos (.inl hrows.ne'), if_neg (by omega), if_pos (by omega), divide, if_neg hrows'.ne']
  change divide _ _ >>= _ = _
  rw [divide, if_neg hperRow]
  change divide _ _ = _
  rw [divide, hrows_total, if_neg htotal_ne, div_div_eq_mul_div]

/-- Rows that are counted as written before any is counted as read, or a file of which a single
character has been read, are a division by zero. -/
theorem writtenPercentage_zero (h : c.Sound size) (hrows : c.rowsRead ≠ 0 ∨ c.rowsWritten ≠ 0)
    (hzero : c.rowsRead = 0 ∨ c.bytesRead = 0) :
    c.writtenPercentage = .error .zeroDivision := by
  have htotal := h.totalRows
  unfold Counters.writtenPercentage
  rw [if_pos hrows, if_neg (by omega), if_pos (by omega)]
  by_cases hnone : c.rowsRead = 0
  · rw [hnone, divide, if_pos Int.cast_zero]
    rfl
  · have hbytes := hzero.resolve_left hnone
    have hrows' : (c.rowsRead : ℚ) ≠ 0 := Int.cast_ne_zero.mpr hnone
    rw [hbytes, divide, if_neg hrows', Int.cast_zero, zero_div]
    have hdivide : ∀ x, divide x 0 = .error .zeroDivision := fun _ => if_pos rfl
    change (divide (c.bytesSize - 0 : ℤ) 0 >>= fun rest =>
      divide c.rowsWritten (c.rowsRead + rest)) = _
    rw [hdivide]
    rfl

theorem percentDone_eq (h : c.Sound size) : c.percentDone =
    c.writtenPercentage.map fun written => (max (c.bytesRead : ℚ) 0 / size + written) * (1 / 2) := by
  unfold Counters.percentDone
  rw [readPercentage_eq h]
  cases c.writtenPercentage with
  | ok written => rfl
  | error e => rfl

/-- The exact condition, in terms of the counters. -/
theorem proper_iff (h : c.Sound size) : c.Proper ↔
    (c.rowsRead = 0 ∧ c.rowsWritten = 0) ∨ (0 < c.rowsRead ∧ 0 < c.bytesRead ∧
      c.bytesRead * (c.rowsRead + c.rowsWritten) ≤ 2 * size * c.rowsRead) := by
  have hread := h.bytesRead
  have hrowsRead := h.rowsRead
  have hsize' : (0 : ℚ) < size := Nat.cast_pos.mpr h.size_pos
  unfold Counters.Proper
  rw [percentDone_eq h]
  by_cases hnone : c.rowsRead = 0 ∧ c.rowsWritten = 0
  · have hwritten : c.writtenPercentage = .ok 0 := by
      unfold Counters.writtenPercentage
      rw [if_neg (by omega)]
    have hmax : max (c.bytesRead : ℚ) 0 ≤ size := by
      apply max_le _ hsize'.le
      exact_mod_cast hread.1.le
    have hzero : 0 ≤ max (c.bytesRead : ℚ) 0 := le_max_right _ _
    have hle : max (c.bytesRead : ℚ) 0 / size ≤ 1 := (div_le_one hsize').mpr hmax
    rw [hwritten]
    refine iff_of_true ⟨_, rfl, by positivity, ?_⟩ (.inl hnone)
    linarith
  by_cases hzero : c.rowsRead = 0 ∨ c.bytesRead = 0
  · rw [writtenPercentage_zero h (by omega) hzero]
    apply iff_of_false
    · intro ⟨q, hq, _⟩
      cases hq
    · omega
  · have hrows : 0 < c.rowsRead := by omega
    have hbytes : 0 < c.bytesRead := by
      have hafter := h.afterBytes hrows
      omega
    have hbytes' : (0 : ℚ) < c.bytesRead := by exact_mod_cast hbytes
    have hrows' : (0 : ℚ) < c.rowsRead := by exact_mod_cast hrows
    have hwritten' : (0 : ℚ) ≤ c.rowsWritten := by exact_mod_cast h.rowsWritten
    have hvalue : (max (c.bytesRead : ℚ) 0 / size +
        c.rowsWritten * c.bytesRead / (c.rowsRead * size)) * (1 / 2) =
          c.bytesRead * (c.rowsRead + c.rowsWritten) / (2 * size * c.rowsRead) := by
      rw [max_eq_left hbytes'.le]
      field_simp
    have hle : (c.bytesRead * (c.rowsRead + c.rowsWritten) / (2 * size * c.rowsRead) : ℚ) ≤ 1 ↔
        c.bytesRead * (c.rowsRead + c.rowsWritten) ≤ 2 * size * c.rowsRead := by
      rw [div_le_one (by positivity)]
      exact_mod_cast Iff.rfl
    rw [writtenPercentage_eq h hbytes hrows, Except.map, hvalue]
    constructor
    · intro ⟨q, hq, _, hone⟩
      cases hq
      exact .inr ⟨hrows, hbytes, hle.mp hone⟩
    · intro hcondition
      refine ⟨_, rfl, by positivity, hle.mpr ?_⟩
      exact (hcondition.resolve_left hnone).2.2

end Percent

/-! ### Runs -/

section Runs
variable {format : Format} {size : ℕ} {s s' : State} {e : Event}

/-- What a step does to the counters. -/
theorem step_cases (h : step format s e = some s') :
    (∃ chars : ℕ, e = .read chars ∧ 0 < chars ∧
      s.counters.bytesRead + chars < s.counters.bytesSize ∧ s'.uncounted = none ∧
      s'.counters = { s.counters with bytesRead := s.counters.bytesRead + chars }) ∨
    ((∃ rows, e = .put rows) ∧ format.least ≤ s.counters.bytesRead + 1 ∧
      s'.counters = s.counters) ∨
    (∃ rows : ℕ, e = .count ∧ s.uncounted = some rows ∧ s'.uncounted = none ∧
      s'.counters = { s.counters with rowsRead := s.counters.rowsRead + rows }) ∨
    (e = .get ∧ s'.uncounted = s.uncounted ∧ s'.counters = s.counters) ∨
    (∃ writer rows : ℕ, e = .written writer rows ∧ s'.uncounted = s.uncounted ∧
      s'.counters = { s.counters with rowsWritten := s.counters.rowsWritten + rows }) := by
  cases e with
  | read chars =>
    simp only [step] at h
    split at h
    · rename_i hguard
      cases h
      exact .inl ⟨chars, rfl, hguard.2.1, hguard.2.2, hguard.1, rfl⟩
    · cases h
  | put rows =>
    simp only [step] at h
    split at h
    · rename_i hguard
      cases h
      exact .inr (.inl ⟨⟨rows, rfl⟩, hguard.2.2, rfl⟩)
    · cases h
  | count =>
    simp only [step] at h
    split at h
    · rename_i rows hrows
      cases h
      exact .inr (.inr (.inl ⟨rows, rfl, hrows, rfl, rfl⟩))
    · cases h
  | get =>
    simp only [step] at h
    split at h
    · cases h
      exact .inr (.inr (.inr (.inl ⟨rfl, rfl, rfl⟩)))
    · cases h
  | written writer rows =>
    simp only [step] at h
    split at h
    · cases h
      exact .inr (.inr (.inr (.inr ⟨writer, rows, rfl, rfl, rfl⟩)))
    · cases h

/-- A batch is on the queue only after something has been read. -/
structure Sound (size : ℕ) (s : State) : Prop where
  counters : s.counters.Sound size
  uncounted : s.uncounted ≠ none → 0 ≤ s.counters.bytesRead

theorem sound_init (hsize : 0 < size) : Sound size (init size) := by
  constructor
  · constructor
    · exact hsize
    · rfl
    · constructor
      · change (-1 : ℤ) < size
        omega
      · exact Int.le_refl _
    · rfl
    · exact Int.le_refl _
    · exact Int.le_refl _
    · intro h
      cases h
  · intro h
    exact absurd rfl h

theorem Sound.step (h : Sound size s) (hstep : Progress.step format s e = some s') :
    Sound size s' := by
  obtain ⟨hpos, hsize, hread, htotal, hrows, hwritten, hafter⟩ := h.counters
  have huncounted := h.uncounted
  have hleast : 1 ≤ format.least := by
    cases format with
    | json => decide
    | csv => decide
  rcases step_cases hstep with ⟨chars, -, hchars, hroom, hnone, hs'⟩ | ⟨-, hguard, hs'⟩ |
    ⟨rows, -, hsome, hnone, hs'⟩ | ⟨-, hsame, hs'⟩ | ⟨writer, rows, -, hsame, hs'⟩
  · refine ⟨?_, fun hne => absurd hnone hne⟩
    rw [hs']
    exact ⟨hpos, hsize, ⟨by dsimp only; omega, by dsimp only; omega⟩, htotal, hrows, hwritten,
      fun h => by have := hafter h; dsimp only; omega⟩
  · rw [← hs'] at hguard
    refine ⟨hs' ▸ h.counters, fun _ => ?_⟩
    omega
  · refine ⟨?_, fun hne => absurd hnone hne⟩
    have hbytes := huncounted (by rw [hsome]; simp)
    rw [hs']
    exact ⟨hpos, hsize, hread, htotal, by dsimp only; omega, hwritten, fun _ => hbytes⟩
  · refine ⟨hs' ▸ h.counters, ?_⟩
    rw [hsame, hs']
    exact huncounted
  · refine ⟨?_, ?_⟩
    · rw [hs']
      exact ⟨hpos, hsize, hread, htotal, hrows, by dsimp only; omega, hafter⟩
    · rw [hsame, hs']
      exact huncounted

structure Kept (s : State) : Prop where
  written_le : s.counters.rowsWritten ≤ s.counters.rowsRead
  bytes : 0 < s.counters.rowsRead → 0 < s.counters.bytesRead

theorem kept_init (size : ℕ) : Kept (init size) := by
  constructor
  · exact Int.le_refl _
  · intro h
    cases h

theorem Kept.step (h : Kept s) (hsettled : Settled s e)
    (hstep : Progress.step format s e = some s') : Kept s' := by
  obtain ⟨hle, hbytes⟩ := h
  rcases step_cases hstep with ⟨chars, -, hchars, -, -, hs'⟩ | ⟨-, -, hs'⟩ |
    ⟨rows, rfl, -, -, hs'⟩ | ⟨-, -, hs'⟩ | ⟨writer, rows, rfl, -, hs'⟩
  · constructor
    · rw [hs']
      exact hle
    · rw [hs']
      intro hrows
      have hold := hbytes hrows
      dsimp only
      omega
  · exact ⟨hs' ▸ hle, hs' ▸ hbytes⟩
  · constructor
    · rw [hs']
      dsimp only
      omega
    · rw [hs']
      intro _
      exact hsettled
  · exact ⟨hs' ▸ hle, hs' ▸ hbytes⟩
  · constructor
    · rw [hs']
      exact hsettled
    · rw [hs']
      exact hbytes

theorem Kept.proper (h : Kept s) (hsound : s.counters.Sound size) : s.counters.Proper := by
  have hread := hsound.bytesRead
  have hrows := hsound.rowsRead
  have hwritten := hsound.rowsWritten
  have hle := h.written_le
  rw [proper_iff hsound]
  by_cases hnone : s.counters.rowsRead = 0
  · exact .inl ⟨hnone, by omega⟩
  · right
    have hbytes := h.bytes (by omega)
    refine ⟨by omega, hbytes, ?_⟩
    calc s.counters.bytesRead * (s.counters.rowsRead + s.counters.rowsWritten)
        ≤ size * (s.counters.rowsRead + s.counters.rowsWritten) :=
          mul_le_mul_of_nonneg_right hread.1.le (by omega)
      _ ≤ size * (2 * s.counters.rowsRead) :=
          mul_le_mul_of_nonneg_left (by omega) (Int.natCast_nonneg size)
      _ = 2 * size * s.counters.rowsRead := by ring

/-- The progress is a fraction in every run in which rows are counted as written after they are
counted as read, and as read after two characters. -/
theorem proper_of_settled (hsize : 0 < size)
    (h : (machine format size).ReachedBy Settled s) : s.counters.Proper := by
  have hsound : Sound size s := h.invariant
    (fun s hinit => hinit ▸ sound_init hsize)
    (fun s e s' _ hs _ hstep => hs.step hstep)
  have hkept : Kept s := h.invariant
    (fun s hinit => hinit ▸ kept_init size)
    (fun s e s' _ hs hsettled hstep => hs.step hsettled hstep)
  exact hkept.proper hsound.counters

def run (format : Format) (s : State) : List Event → Option State
  | [] => some s
  | e :: es => (step format s e).bind fun s' => run format s' es

theorem reachable_run {es : List Event} (hs : (machine format size).Reachable s)
    (h : run format s es = some s') : (machine format size).Reachable s' := by
  exact hs.run (fun _ => rfl) (fun _ _ _ => rfl) (fun _ _ _ hstep => hstep)
    (fun _ _ _ => trivial) h

end Runs

/-- A file of 30 bytes with two rows in two batches. -/
theorem proper_of_settled_two :
    ∃ s, (machine .json 30).ReachedBy Settled s ∧ s.counters = ⟨30, 29, -1, 2, 1⟩ ∧
      s.counters.Proper := by
  have run {s s' : State} {e : Event} (h : (machine .json 30).ReachedBy Settled s)
      (hstep : step .json s e = some s') (hsettled : Settled s e) :
      (machine .json 30).ReachedBy Settled s' := .step h hsettled hstep
  have h := @run _ _ (.read 30) (.init rfl) rfl trivial
  have h := @run _ _ (.put 1) h rfl trivial
  have h := @run _ _ .get h rfl trivial
  have h := @run _ _ .count h rfl (by decide)
  have h := @run _ _ (.put 1) h rfl trivial
  have h := @run _ _ (.written 0 1) h rfl (by decide)
  have h := @run _ _ .count h rfl (by decide)
  exact ⟨_, h, rfl, proper_of_settled (by decide) h⟩

/-- A writer is ahead of the reader: of its first batch, which is a division by zero, or of its
second, which makes the progress 87/60. A file of one character is another division by zero. -/
theorem improper_reachable :
    (∃ s, (machine .json 30).Reachable s ∧ s.counters.percentDone = .error .zeroDivision) ∧
    (∃ s, (machine .json 30).Reachable s ∧ s.counters.percentDone = .ok (29 / 20)) ∧
    ∃ s, (machine .csv 1).Reachable s ∧ s.counters.percentDone = .error .zeroDivision := by
  refine ⟨⟨⟨⟨30, 29, -1, 0, 2⟩, some 2, [], [0]⟩, ?_, ?_⟩,
    ⟨⟨⟨30, 29, -1, 1, 2⟩, some 1, [], [0, 0]⟩, ?_, ?_⟩, ⟨⟨⟨1, 0, -1, 1, 0⟩, none, [1], []⟩, ?_, ?_⟩⟩
  · apply @reachable_run .json 30 _ _ [.read 30, .put 2, .get, .written 0 2] (.init rfl)
    decide
  · decide +kernel
  · apply @reachable_run .json 30 _ _ [.read 30, .put 1, .get, .count, .written 0 1, .put 1, .get,
      .written 1 1] (.init rfl)
    decide
  · decide +kernel
  · apply @reachable_run .csv 1 _ _ [.read 1, .put 1, .count] (.init rfl)
    decide
  · decide +kernel

end RethinkDB.Import.Progress
