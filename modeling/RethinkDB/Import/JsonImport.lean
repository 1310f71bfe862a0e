import RethinkDB.Import.JsonWindow
import RethinkDB.Import.ReadToQueue

/-! The whole of `batches` over a JSON file: what it comes to, by the run of its loops. -/
namespace RethinkDB.Import.Source
open RethinkDB.Lib Prog
open RethinkDB.Import.ReadToQueue (Cut)

/-! ### The end of the file -/

/-- What `teardown` accepts. -/
def closed (array : Bool) (left : List Char) : Bool :=
  match array, Json.skip left with
  | true, ']' :: close => Json.skip close = []
  | true, _ => false
  | false, rest => rest = []

/-- The buffer could not be filled. -/
def Limited (o : Outcome Raised Unit) : Prop :=
  o = .error (.attributeError "bytes_processed") ∨ ∃ message, o = .error (.assertionError message)

/-- It could be until the file was at its end. -/
def Concluded (o : Outcome Raised Unit) : Prop := o ≠ .running ∧ ¬Limited o

theorem concluded_valueError (message : String) : Concluded (.error (.valueError message)) := by
  simp [Concluded, Limited]

theorem concluded_ok : Concluded (.ok ()) := by simp [Concluded, Limited]

section Teardown
variable {array : Bool} {f : JsonSourceFile}

theorem checkRest_eq (f : JsonSourceFile) : ∃ o, checkRest f = (o, f) ∧ Concluded o ∧
    (o = .ok () ↔ f.snippit = []) := by
  unfold checkRest
  by_cases h : 0 < f.snippit.length
  · rw [if_pos h]
    refine ⟨_, rfl, concluded_valueError _, ?_⟩
    have hne : f.snippit ≠ [] := List.ne_nil_of_length_pos h
    simp [hne]
  · rw [if_neg h]
    refine ⟨_, rfl, concluded_ok, ?_⟩
    have hnil : f.snippit = [] := List.eq_nil_of_length_eq_zero (by omega)
    simp [hnil]

/-- The end of `teardown`. -/
theorem teardownRest_eq (h : Ready (some array) f) : ∃ o f',
    (do skipWhitespace; checkRest) f = (o, f') ∧ Concluded o ∧
      (o = .ok () ↔ Json.skip f.snippit = []) := by
  rw [bind_of_ok (skipWhitespace_eq h)]
  obtain ⟨o, ho, hover, hok⟩ := checkRest_eq (f.seek (Json.skip f.snippit))
  rw [JsonSourceFile.snippit_seek (Json.skip_suffix _)] at hok
  exact ⟨o, _, ho, hover, hok⟩

theorem teardown_eq (h : Ready (some array) f) : ∃ o f', teardown f = (o, f') ∧ Concluded o ∧
    (o = .ok () ↔ closed array f.snippit = true) := by
  have hready := h.seek (Json.skip f.snippit)
  have hsnippit := JsonSourceFile.snippit_seek (Json.skip_suffix f.snippit)
  unfold teardown
  rw [bind_of_ok (skipWhitespace_eq h)]
  cases array with
  | false =>
    have hcheck : checkBracket (f.seek (Json.skip f.snippit)) =
        (.ok (), f.seek (Json.skip f.snippit)) := by
      unfold checkBracket
      rw [hready.array_eq]
      rfl
    rw [bind_of_ok hcheck]
    obtain ⟨o, f', ho, hover, hok⟩ := teardownRest_eq hready
    rw [hsnippit, skip_skip] at hok
    refine ⟨o, f', ho, hover, hok.trans ?_⟩
    simp [closed]
  | true =>
    cases hskip : Json.skip f.snippit with
    | nil =>
      have hcheck : checkBracket (f.seek (Json.skip f.snippit)) =
          (.error .indexError, f.seek (Json.skip f.snippit)) := by
        unfold checkBracket
        rw [hready.array_eq, if_pos rfl, hsnippit, hskip]
        rfl
      rw [hskip] at hcheck
      rw [bind_of_error hcheck]
      exact ⟨_, _, rfl, by simp [Concluded, Limited], by simp [closed, hskip]⟩
    | cons c close =>
      by_cases hc : c = ']'
      · subst hc
        have hadvance : (f.seek (Json.skip f.snippit)).advance 1 = f.seek close := by
          have hlength : 1 ≤ (f.seek (Json.skip f.snippit)).snippit.length := by
            rw [hsnippit, hskip]
            exact Nat.le_add_left 1 _
          rw [JsonSourceFile.advance_eq_seek hlength, hsnippit, hskip]
          have hsuffix : (']' :: close) <:+ f.snippit := hskip ▸ Json.skip_suffix f.snippit
          exact JsonSourceFile.seek_seek hsuffix (List.suffix_cons _ _)
        have hcheck : checkBracket (f.seek (Json.skip f.snippit)) = (.ok (), f.seek close) := by
          unfold checkBracket
          rw [hready.array_eq, if_pos rfl, ← hadvance, hsnippit, hskip]
          rfl
        rw [hskip] at hcheck
        rw [bind_of_ok hcheck]
        have hclose : (f.seek close).snippit = close := by
          apply JsonSourceFile.snippit_seek
          exact (List.suffix_cons _ _).trans (hskip ▸ Json.skip_suffix f.snippit)
        obtain ⟨o, f', ho, hover, hok⟩ := teardownRest_eq (h.seek close)
        rw [hclose] at hok
        refine ⟨o, f', ho, hover, hok.trans ?_⟩
        simp [closed, hskip]
      · have hcheck : ∃ message, checkBracket (f.seek (Json.skip f.snippit)) =
            (.error (.valueError message), f.seek (Json.skip f.snippit)) := by
          unfold checkBracket
          rw [hready.array_eq, if_pos rfl, hsnippit, hskip]
          exact ⟨_, if_neg hc⟩
        obtain ⟨message, hcheck⟩ := hcheck
        rw [hskip] at hcheck
        rw [bind_of_error hcheck]
        refine ⟨_, _, rfl, concluded_valueError _, ?_⟩
        have hclosed : closed true f.snippit = false := by
          unfold closed
          rw [hskip]
          split
          · rename_i heq
            exact absurd (List.cons.inj heq).1 hc
          · rfl
          · rename_i heq
            cases heq
        rw [hclosed]
        simp

end Teardown

/-! ### The start of the file -/

/-- What the reader has before it once the first buffer is filled. -/
def filled (size : ℕ) (text : List Char) : Window where
  text := text
  seen := min size text.length
  atStart := true
  size := size
  found := false

/-- What it has after `setup_file`, which passes over the bracket of an array. -/
def opening (array : Bool) (size : ℕ) (text : List Char) : Window :=
  if array then (filled size text).advance 1 else filled size text

/-- The first character of a text that is read as an array, or as objects. -/
def mark (array : Bool) : Char := if array then '[' else '{'

theorem sound_filled {size : ℕ} {text : List Char} (hsize : 0 < size) (htext : text ≠ []) :
    (filled size text).Sound := by
  have hlength := List.length_pos_of_ne_nil htext
  unfold filled
  constructor
  · exact Nat.min_le_right _ _
  · exact hsize
  · intro h
    cases h
  · intro _
    dsimp only
    omega

theorem sound_opening (array : Bool) {size : ℕ} {text : List Char} (hsize : 0 < size)
    (htext : text ≠ []) : (opening array size text).Sound := by
  have hsound := sound_filled hsize htext
  have hlength := List.length_pos_of_ne_nil htext
  unfold opening
  split
  · apply hsound.advance
    change 1 ≤ min size text.length
    omega
  · exact hsound

section Setup
variable {maxSize size : ℕ} {text : List Char} {f g : JsonSourceFile}

/-- The first call of `fill_buffer`. -/
theorem fillBuffer_init (maxSize : ℕ) (hsize : 0 < size) (htext : text ≠ []) :
    ∃ f, fillBuffer maxSize (.init text size) = (.ok (), f) ∧ Ready none f ∧
      window f = filled size text := by
  have hchunk : text.take size ≠ [] := by
    rw [ne_eq, List.take_eq_nil_iff, not_or]
    exact ⟨by omega, htext⟩
  let f₀ : JsonSourceFile := ⟨text, none, false, size, some [], 0, 0, -1⟩
  let f₁ : JsonSourceFile := { f₀ with source := text.drop size }
  have hfill : fillBuffer maxSize (.init text size) = (.ok (), f₁.slide (text.take size)) := by
    unfold fillBuffer
    rw [bind_of_ok (show widen maxSize (.init text size) = (.ok (), f₀) from rfl),
      bind_of_ok (show read _ f₀ = (.ok size, f₀) from rfl),
      bind_of_ok (raiseIf_neg (by omega) _ f₀),
      bind_of_ok (show read _ f₀ = (.ok (text.take size), f₀) from rfl),
      bind_of_ok (show modify _ f₀ = (.ok (), f₁) from rfl),
      bind_of_ok (raiseIf_neg hchunk _ f₁)]
    rfl
  refine ⟨_, hfill, ⟨⟨text.take size, rfl, hchunk, Nat.zero_le _, rfl⟩, rfl⟩, ?_⟩
  unfold window filled
  rw [Window.mk.injEq]
  exact ⟨List.take_append_drop size text, List.length_take, rfl, rfl, rfl⟩

/-- A turn of the loop over leading whitespace, once the buffer is filled. -/
theorem setupTurn_filled (hfill : fillBuffer maxSize g = (.ok (), f)) (hready : Ready none f)
    (hpos : f.bufferPos = 0) : setupTurn maxSize g =
      (.ok (decide ((Json.skip f.snippit).length ≠ f.snippit.length)),
        f.seek (Json.skip f.snippit)) := by
  have hsame : { f with bufferPos := 0 } = f := by
    cases f
    cases hpos
    rfl
  have hle := (Json.skip_suffix f.snippit).length_le
  have hmoved : (f.seek (Json.skip f.snippit)).bufferPos ≠ 0 ↔
      (Json.skip f.snippit).length ≠ f.snippit.length := by
    change f.bufferPos + (f.snippit.length - (Json.skip f.snippit).length) ≠ 0 ↔ _
    omega
  unfold setupTurn
  rw [bind_of_ok hfill, bind_of_ok (show modify _ _ = (.ok (), { f with bufferPos := 0 }) from rfl),
    hsame, bind_of_ok (skipWhitespace_eq hready)]
  change (Outcome.ok (decide _), _) = _
  rw [decide_eq_decide.mpr hmoved]

theorem snippit_head (hwindow : (window f).text = text) (hready : Ready none f)
    (hpos : f.bufferPos = 0) : ∃ str, f.bufferStr = some str ∧ f.snippit = str ∧
      str.head? = text.head? := by
  obtain ⟨str, hstr, hne, -⟩ := hready.str
  have hsnippit : f.snippit = str := by
    rw [JsonSourceFile.snippit, hstr, hpos]
    rfl
  refine ⟨str, hstr, hsnippit, ?_⟩
  rw [← hwindow]
  change _ = (f.snippit ++ f.source).head?
  rw [hsnippit, List.head?_append_of_ne_nil _ hne]

/-- The first character of the text decides what it is read as. -/
theorem checkFirst_eq {array : Bool} (hready : Ready none f) (hpos : f.bufferPos = 0)
    (hmark : (window f).text.head? = some (mark array)) : ∃ g, checkFirst f = (.ok (), g) ∧
      Ready (some array) g ∧
      window g = if array then (window f).advance 1 else window f := by
  obtain ⟨str, hstr, hsnippit, hhead⟩ := snippit_head rfl hready hpos
  obtain ⟨str', hstr', hne, -, hend⟩ := hready.str
  rw [hstr] at hstr'
  cases hstr'
  rw [hmark] at hhead
  have hlength := List.length_pos_of_ne_nil hne
  have hfirst : (f.bufferStr.getD []).head? = some (mark array) := by
    rw [hstr, Option.getD_some, hhead]
  unfold checkFirst
  rw [hfirst]
  cases array with
  | true =>
    refine ⟨_, rfl, ⟨⟨str, hstr, hne, hlength, hend⟩, rfl⟩, ?_⟩
    have hadvance : { f with jsonArray := some true, bufferPos := 1 } =
        { f.advance 1 with jsonArray := some true } := by
      unfold JsonSourceFile.advance
      rw [hpos]
    rw [if_pos rfl, ← window_advance f (by rw [hsnippit]; exact hlength), hadvance]
    rfl
  | false => exact ⟨_, rfl, ⟨⟨str, hstr, hne, hpos ▸ Nat.zero_le _, hend⟩, rfl⟩, rfl⟩

theorem skip_mark {array : Bool} {cs : List Char} (h : cs.head? = some (mark array)) :
    Json.skip cs = cs := by
  cases cs with
  | nil => cases h
  | cons c cs =>
    have hc : c = mark array := Option.some.inj h
    rw [Json.skip, List.dropWhile_cons_of_neg]
    rw [hc]
    cases array <;> decide

/-- `setup_file` on a text without leading whitespace. -/
theorem setupFile_eq (maxSize : ℕ) (hsize : 0 < size) {array : Bool}
    (hmark : text.head? = some (mark array)) :
    ∃ f, Ready (some array) f ∧ window f = opening array size text ∧
      ∀ fuel, setupFile maxSize (fuel + 1) (.init text size) = (.ok (), f) := by
  have htext : text ≠ [] := by
    intro hnil
    rw [hnil] at hmark
    cases hmark
  obtain ⟨f, hfill, hready, hwindow⟩ := fillBuffer_init maxSize hsize htext
  have hpos : f.bufferPos = 0 := by
    have := congrArg Window.atStart hwindow
    simpa [window, filled] using this
  have hfull : (window f).text = text := congrArg Window.text hwindow
  obtain ⟨str, -, hsnippit, hhead⟩ := snippit_head hfull hready hpos
  have hskip : Json.skip f.snippit = f.snippit := skip_mark (by rw [hsnippit, hhead, hmark])
  have hturn := setupTurn_filled hfill hready hpos
  rw [hskip, JsonSourceFile.seek_self, decide_eq_false (by simp)] at hturn
  obtain ⟨g, hg, hready', hwindow'⟩ := checkFirst_eq hready hpos (hfull ▸ hmark)
  refine ⟨g, hready', ?_, fun fuel => ?_⟩
  · rw [hwindow', hwindow, opening]
  · have hloop : turns (setupTurn maxSize) (fuel + 1) (.init text size) = (.ok (), f) := by
      show after _ (setupTurn maxSize (.init text size)) = _
      rw [hturn]
      rfl
    unfold setupFile
    rw [bind_of_ok hloop, hg]

end Setup

/-! ### The whole of `batches` -/

section Batches
variable {V : Type} {D : JSONDecoder V} {maxSize size b : ℕ} {array : Bool} {text : List Char}
  {rows : List V} {e : Raised} {left : List Char} {j : Job V}

/-- The last batch is yielded unless there is nothing in it. -/
def Job.flush (j : Job V) : Job V := if j.batch = [] then j else j.yieldBatch

theorem Batched.cut (h : Batched b rows j) (hbatch : j.batch.length < b) :
    Cut b rows j.flush.yielded := by
  unfold Job.flush
  split_ifs with hempty
  · constructor
    · rw [← h.flatten_eq, hempty, List.append_nil]
    · exact fun piece hpiece => h.full piece ((List.dropLast_sublist _).subset hpiece)
    · intro piece hpiece
      have hfull := h.full piece hpiece
      exact ⟨List.ne_nil_of_length_pos (by omega), hfull.le⟩
  · constructor
    · rw [← h.flatten_eq, Job.yieldBatch, List.flatten_concat]
    · rw [Job.yieldBatch, List.dropLast_concat]
      exact h.full
    · intro piece hpiece
      cases List.mem_append.mp hpiece with
      | inl hpiece =>
        have hfull := h.full piece hpiece
        exact ⟨List.ne_nil_of_length_pos (by omega), hfull.le⟩
      | inr hpiece =>
        rw [List.mem_singleton.mp hpiece]
        exact ⟨hempty, hbatch.le⟩

theorem finish_eq (hready : Ready (some array) j.file) : ∃ o f,
    finish j = (o, j.flush.setFile f) ∧ Concluded o ∧
      (o = .ok () ↔ closed array j.file.snippit = true) := by
  obtain ⟨o, f, hteardown, hover, hok⟩ := teardown_eq hready
  have hfile : j.flush.file = j.file := by
    unfold Job.flush
    split_ifs <;> rfl
  refine ⟨o, f, ?_, hover, hok⟩
  have hlast : onFile teardown j.flush = (o, j.flush.setFile f) := by
    unfold onFile zoom
    rw [hfile, hteardown]
  exact hlast

/-- What `batches` comes to, given fuel enough: how it ends, and the batches it has yielded. -/
def Comes (D : JSONDecoder V) (maxSize size b : ℕ) (text : List Char) (o : Outcome Raised Unit)
    (pieces : List (List V)) : Prop :=
  ∃ n, ∀ fuel, n ≤ fuel → ∃ f batch more,
    batches D maxSize (some b) fuel (.init text size) = (o, ⟨f, batch, more, pieces⟩)

/-- An end of the loops is the end of `batches`, but for that of the file, which is torn down. -/
theorem comes_of_runs (hb : 0 < b) {f : JsonSourceFile} {w : Window} (hready : Ready (some array) f)
    (hwindow : window f = w) {n : ℕ}
    (hsetup : ∀ fuel, n ≤ fuel → setupFile maxSize fuel (.init text size) = (.ok (), f))
    (hruns : Runs D array maxSize w rows e left) :
    ∃ o pieces, Comes D maxSize size b text o pieces ∧ (e = .stopIteration → Concluded o) ∧
      (e = .stopIteration → Cut b rows pieces ∧ (o = .ok () ↔ closed array left = true)) ∧
      (e ≠ .stopIteration → o = .error e) := by
  let start : Job V := (Job.init text size).setFile f
  have hat : At array b w [] start := ⟨rfl, hready, hwindow, ⟨rfl, by simp [start, Job.setFile, Job.init],
    Nat.zero_le b⟩⟩
  obtain ⟨j, ⟨hover, m, hm⟩, hbatched, hbatch, hready', hleft⟩ := runs_stops hb hruns hat
  have hloop (fuel : ℕ) (hfuel : n ≤ fuel ∧ m ≤ fuel) :
      batches D maxSize (some b) fuel (.init text size) =
        if e = .stopIteration then finish j else (.error e, j) := by
    have hturns : turns (turn D maxSize b) fuel start = (.error e, j) := by
      rw [← Nat.add_sub_cancel' hfuel.2, turns_stable (by rw [hm]; exact hover), hm]
    have hfile : onFile (setupFile maxSize fuel) (Job.init text size : Job V) = (.ok (), start) := by
      unfold onFile zoom
      rw [show (Job.init text size : Job V).file = .init text size from rfl, hsetup fuel hfuel.1]
    unfold batches
    dsimp only [Option.getD_some]
    rw [bind_of_ok (raiseIf_neg (by omega) _ _), bind_of_ok hfile]
    unfold handle
    rw [hturns]
    cases e <;> rfl
  by_cases hstop : e = .stopIteration
  · subst hstop
    obtain ⟨o, g, hfinish, hover', hok⟩ := finish_eq hready'
    rw [hleft] at hok
    refine ⟨o, j.flush.yielded, ⟨max n m, fun fuel hfuel => ?_⟩, fun _ => hover', fun _ => ?_, absurd rfl⟩
    · rw [hloop fuel (by omega), if_pos rfl, hfinish]
      exact ⟨g, _, _, rfl⟩
    · exact ⟨by simpa using hbatched.cut hbatch, hok⟩
  · refine ⟨.error e, j.yielded, ⟨max n m, fun fuel hfuel => ?_⟩, fun h => absurd h hstop, fun h => absurd h hstop,
      fun _ => rfl⟩
    rw [hloop fuel (by omega), if_neg hstop]
    exact ⟨_, _, _, rfl⟩

end Batches

/-! ### What is ahead of the reader -/

section Guide
variable {V : Type} {D : JSONDecoder V} {maxSize : ℕ} {array accepted : Bool}
  {A : Bool → List Char → List V → Prop} {w w' : Window} {rows rows' : List V} {e : Raised}
  {left rest : List Char}

/-- `A` tells the rows ahead of the reader, and stays true whatever a line sees of the text. -/
structure Guide (D : JSONDecoder V) (array accepted : Bool)
    (A : Bool → List Char → List V → Prop) : Prop where
  row {comma : Bool} {text rest : List Char} {rows : List V} {n : ℕ} {value : V} :
    A comma text rows → n ≤ text.length → line D comma (text.take n) = (rest, some value) →
    ∃ rows', rows = value :: rows' ∧ A array (text.drop (n - rest.length)) rows'
  more {comma : Bool} {text rest : List Char} {rows : List V} {n : ℕ} :
    A comma text rows → n ≤ text.length → line D comma (text.take n) = (rest, none) →
    A comma (text.drop (n - rest.length)) rows
  ended {comma : Bool} {text rest : List Char} {rows : List V} :
    A comma text rows → line D comma text = (rest, none) →
    rows = [] ∧ closed array rest = accepted

/-- Where nothing is passed over of what the reader sees, it sees less than half a buffer. -/
def Short (D : JSONDecoder V) (maxSize : ℕ) (A : Bool → List Char → List V → Prop) : Prop :=
  ∀ comma text rows n rest, A comma text rows → n < text.length →
    line D comma (text.take n) = (rest, none) → rest.length = n →
    2 * n < maxSize + 2 ∧ (text.head? = some '{' → 2 * n < maxSize)

theorem Window.line_le (hw : w.Sound) {row : Option V} (hline : w.line D array = (rest, row)) :
    rest.length ≤ w.seen := by
  have hsuffix := line_suffix D (array && w.found) w.visible
  unfold Window.line at hline
  rw [hline] at hsuffix
  have := hsuffix.length_le
  rwa [w.visible_length hw] at this

theorem fill_stop (h : w.fill maxSize = .error .stopIteration) : w.text.length ≤ w.seen := by
  unfold Window.fill Window.refill at h
  split_ifs at h <;> first | assumption | cases h

/-- The rows of a run that comes to the end of the file are those ahead of the reader. -/
theorem Runs.follow (hguide : Guide D array accepted A)
    (hruns : Runs D array maxSize w rows' e left) (hw : w.Sound)
    (hahead : A (array && w.found) w.text rows) (he : e = .stopIteration) :
    rows' = rows ∧ closed array left = accepted := by
  induction hruns generalizing rows with
  | @row w rest row rows' e left hline _ ih =>
    obtain ⟨rows₁, hrows, hahead⟩ := hguide.row hahead hw.seen_le hline
    have hflag : (array && (w.afterLine (rest, some row)).found) = array := by
      change (array && (w.found || true)) = array
      rw [Bool.or_true, Bool.and_true]
    obtain ⟨h, hleft⟩ := @ih rows₁ (hw.afterLine _) (by rw [hflag]; exact hahead) he
    exact ⟨by rw [hrows, h], hleft⟩
  | @refill w w' rest rows' e left hline hfill _ ih =>
    have hmore := hguide.more hahead hw.seen_le hline
    obtain ⟨-, -, -, hw'⟩ := Window.fill_ok_iff.mp hfill
    have hflag : (array && w'.found) = (array && w.found) := by
      rw [hw']
      change (array && (w.found || false)) = _
      rw [Bool.or_false]
    have htext : w'.text = w.text.drop (w.seen - rest.length) := by
      rw [hw']
      rfl
    exact ih ((hw.afterLine _).fill hfill) (by rw [hflag, htext]; exact hmore) he
  | @unfilled w rest e hline hfill =>
    have hle := Window.line_le hw hline
    subst he
    have hend : (w.text.drop (w.seen - rest.length)).length ≤ w.seen - (w.seen - rest.length) :=
      fill_stop hfill
    rw [List.length_drop] at hend
    have hall : w.visible = w.text := List.take_of_length_le (by omega)
    unfold Window.line at hline
    rw [hall] at hline
    obtain ⟨hrows, hclosed⟩ := hguide.ended hahead hline
    exact ⟨hrows.symm, hclosed⟩

/-- A buffer that starts with what the reader is at holds as much as it can. -/
def Window.Full (w : Window) : Prop :=
  w.atStart = true → w.seen = w.text.length ∨ w.size < w.seen ∨
    w.size ≤ w.seen ∧ w.text.head? = some '{'

/-- There is no more of the rows ahead in what the reader sees. -/
structure Stuck (D : JSONDecoder V) (array : Bool) (A : Bool → List Char → List V → Prop)
    (w : Window) (rest : List Char) (rows : List V) : Prop where
  full : w.Full
  sound : w.Sound
  ahead : A (array && w.found) w.text rows
  line_eq : w.line D array = (rest, none)

/-- The buffer grows only while it is less than half the maximum. -/
theorem size_lt (hshort : Short D maxSize A) (hstuck : Stuck D array A w rest rows)
    (hsize : w.size < maxSize)
    (hfill : (w.afterLine (rest, (none : Option V))).fill maxSize = .ok w') : w'.size < maxSize := by
  obtain ⟨-, -, hmore, hw'⟩ := Window.fill_ok_iff.mp hfill
  have hw := hstuck.sound
  have hline := hstuck.line_eq
  have hle := Window.line_le hw hline
  have hwidened : w'.size = (w.afterLine (rest, (none : Option V))).widened maxSize := by rw [hw']
  rw [hwidened]
  unfold Window.widened
  split_ifs with hstart
  · change (w.atStart && decide (w.seen - rest.length = 0)) = true at hstart
    rw [Bool.and_eq_true, decide_eq_true_eq] at hstart
    change w.seen - (w.seen - rest.length) < (w.text.drop (w.seen - rest.length)).length at hmore
    rw [List.length_drop] at hmore
    have hsame : rest.length = w.seen := by omega
    obtain ⟨hbound, hhead⟩ := hshort _ _ _ w.seen rest hstuck.ahead (by omega) hline hsame
    change min (w.size * 2) maxSize < maxSize
    rcases hstuck.full hstart.1 with hall | hroom | ⟨hroom, hfirst⟩
    · omega
    · omega
    · have := hhead hfirst
      omega
  · exact hsize

/-- A buffer of a size that is kept is filled until the file ends, if it can be filled at all. -/
theorem Runs.stops_of {Q : ℕ → Prop} (hguide : Guide D array accepted A)
    (hkeeps : ∀ {w w' : Window} {rest rows}, Stuck D array A w rest rows → Q w.size →
      (w.afterLine (rest, (none : Option V))).fill maxSize = .ok w' → Q w'.size)
    (hstops : ∀ {w : Window} {rest rows e}, Stuck D array A w rest rows → Q w.size →
      (w.afterLine (rest, (none : Option V))).fill maxSize = .error e → e = .stopIteration)
    (hruns : Runs D array maxSize w rows' e left) (hw : w.Sound) (hfull : w.Full) (hsize : Q w.size)
    (hahead : A (array && w.found) w.text rows) : e = .stopIteration := by
  induction hruns generalizing rows with
  | @row w rest row rows' e left hline _ ih =>
    obtain ⟨rows₁, -, hahead⟩ := hguide.row hahead hw.seen_le hline
    have hflag : (array && (w.afterLine (rest, some row)).found) = array := by
      change (array && (w.found || true)) = array
      rw [Bool.or_true, Bool.and_true]
    have hless := line_row_length hline
    rw [w.visible_length hw] at hless
    have hfull' : (w.afterLine (rest, some row)).Full := by
      intro hstart
      change (w.atStart && decide (w.seen - rest.length = 0)) = true at hstart
      rw [Bool.and_eq_true, decide_eq_true_eq] at hstart
      omega
    exact ih (hw.afterLine _) hfull' hsize (by rw [hflag]; exact hahead)
  | @refill w w' rest rows' e left hline hfill _ ih =>
    have hmore := hguide.more hahead hw.seen_le hline
    have hsize' := hkeeps ⟨hfull, hw, hahead, hline⟩ hsize hfill
    obtain ⟨-, -, -, hw'⟩ := Window.fill_ok_iff.mp hfill
    have hflag : (array && w'.found) = (array && w.found) := by
      rw [hw']
      change (array && (w.found || false)) = _
      rw [Bool.or_false]
    have htext : w'.text = w.text.drop (w.seen - rest.length) := by
      rw [hw']
      rfl
    have hfull' : w'.Full := by
      intro _
      rw [hw']
      dsimp only
      omega
    exact ih ((hw.afterLine _).fill hfill) hfull' hsize' (by rw [hflag, htext]; exact hmore)
  | @unfilled w rest e hline hfill => exact hstops ⟨hfull, hw, hahead, hline⟩ hsize hfill

/-- A buffer that is smaller than the maximum is filled until the file ends. -/
theorem Runs.stops (hguide : Guide D array accepted A) (hshort : Short D maxSize A)
    (hruns : Runs D array maxSize w rows' e left) (hw : w.Sound) (hfull : w.Full)
    (hsize : w.size < maxSize) (hahead : A (array && w.found) w.text rows) :
    e = .stopIteration := by
  let Q (size : ℕ) : Prop := size < maxSize
  have hstops {w : Window} {rest : List Char} {rows : List V} {e : Raised}
      (hstuck : Stuck D array A w rest rows) (hsize : Q w.size)
      (hfill : (w.afterLine (rest, (none : Option V))).fill maxSize = .error e) :
      e = .stopIteration := by
    have hw := hstuck.sound
    have hroom : (w.afterLine (rest, (none : Option V))).seen ≤
        (w.afterLine (rest, (none : Option V))).widened maxSize := by
      have hafter := hw.afterLine (rest, (none : Option V))
      unfold Window.widened
      split_ifs with hstart
      · have hseen := hafter.start hstart
        have hpos := hw.size_pos
        change _ ≤ min (w.size * 2) maxSize
        change _ ∧ _ ≤ w.size + 1 at hseen
        omega
      · exact hafter.room (by simpa using hstart)
    unfold Window.fill Window.refill at hfill
    split_ifs at hfill with hmax hless hend
    · exact absurd hmax.2 (Nat.ne_of_lt hsize)
    · omega
    · cases hfill
      rfl
  exact Runs.stops_of hguide (size_lt hshort) hstops hruns hw hfull hsize hahead

/-- What is left when nothing is passed over at the end is not longer than the maximum. -/
def Fits (D : JSONDecoder V) (maxSize : ℕ) (A : Bool → List Char → List V → Prop) : Prop :=
  ∀ comma text rows, A comma text rows → line D comma text = (text, none) → text.length ≤ maxSize

/-- In a buffer of more than the maximum all of the text is seen if nothing is passed over. -/
theorem seen_all (hshort : Short D maxSize A) (hstuck : Stuck D array A w rest rows)
    (hsize : maxSize < w.size) (hstart : (w.afterLine (rest, (none : Option V))).atStart = true) :
    rest = w.text ∧ w.seen = w.text.length := by
  have hw := hstuck.sound
  have hline := hstuck.line_eq
  have hle := Window.line_le hw hline
  change (w.atStart && decide (w.seen - rest.length = 0)) = true at hstart
  rw [Bool.and_eq_true, decide_eq_true_eq] at hstart
  have hsame : rest.length = w.seen := by omega
  have hall : w.seen = w.text.length := by
    by_contra hne
    have hless := lt_of_le_of_ne hw.seen_le hne
    have hbound := (hshort _ _ _ w.seen rest hstuck.ahead hless hline hsame).1
    rcases hstuck.full hstart.1 with h | h | ⟨h, -⟩
    · exact hne h
    · omega
    · omega
  have hsuffix := line_suffix D (array && w.found) w.visible
  unfold Window.line at hline
  rw [hline, Window.visible, List.take_of_length_le (by omega)] at hsuffix
  have hlength : rest.length = w.text.length := hsame.trans hall
  exact ⟨hsuffix.eq_of_length hlength, hall⟩

/-- A buffer that is larger than the maximum is filled until the file ends. -/
theorem Runs.stops_above (hguide : Guide D array accepted A) (hshort : Short D maxSize A)
    (hfits : Fits D maxSize A) (hruns : Runs D array maxSize w rows' e left) (hw : w.Sound)
    (hfull : w.Full) (hsize : maxSize < w.size) (hahead : A (array && w.found) w.text rows) :
    e = .stopIteration := by
  let Q (size : ℕ) : Prop := maxSize < size
  have hkeeps {w w' : Window} {rest : List Char} {rows : List V}
      (hstuck : Stuck D array A w rest rows) (hsize : Q w.size)
      (hfill : (w.afterLine (rest, (none : Option V))).fill maxSize = .ok w') : Q w'.size := by
    obtain ⟨-, -, hmore, hw'⟩ := Window.fill_ok_iff.mp hfill
    have hwidened : w'.size = (w.afterLine (rest, (none : Option V))).widened maxSize := by rw [hw']
    rw [hwidened]
    unfold Window.widened
    split_ifs with hstart
    · obtain ⟨-, hall⟩ := seen_all hshort hstuck hsize hstart
      change w.seen - (w.seen - rest.length) < (w.text.drop (w.seen - rest.length)).length at hmore
      rw [List.length_drop] at hmore
      omega
    · exact hsize
  have hstops {w : Window} {rest : List Char} {rows : List V} {e : Raised}
      (hstuck : Stuck D array A w rest rows) (hsize : Q w.size)
      (hfill : (w.afterLine (rest, (none : Option V))).fill maxSize = .error e) :
      e = .stopIteration := by
    have hroom : (w.afterLine (rest, (none : Option V))).seen ≤
        (w.afterLine (rest, (none : Option V))).widened maxSize := by
      unfold Window.widened
      split_ifs with hstart
      · obtain ⟨hrest, hall⟩ := seen_all hshort hstuck hsize hstart
        have hvisible : w.visible = w.text := List.take_of_length_le (by omega)
        have hline := hstuck.line_eq
        unfold Window.line at hline
        rw [hvisible, hrest] at hline
        have hbound := hfits _ _ _ hstuck.ahead hline
        change w.seen - (w.seen - rest.length) ≤ min (w.size * 2) maxSize
        omega
      · exact (hstuck.sound.afterLine (rest, (none : Option V))).room (by simpa using hstart)
    unfold Window.fill Window.refill at hfill
    split_ifs at hfill with hmax hless hend
    · exact absurd hmax.2 (Nat.ne_of_gt hsize)
    · omega
    · cases hfill
      rfl
  exact Runs.stops_of hguide hkeeps hstops hruns hw hfull hsize hahead

end Guide
end RethinkDB.Import.Source
