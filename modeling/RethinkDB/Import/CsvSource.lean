import RethinkDB.Import.ReadToQueue
import RethinkDB.Lib.Csv
import RethinkDB.Lib.Prog

/-! `CsvSourceFile`: the rows of a CSV file, every field a text, and `SourceFile.batches` over
it. -/
namespace RethinkDB.Import.CsvSource
open RethinkDB.Lib Prog
open ReadToQueue (Cut cut)

/-- `csv.field_size_limit()`, which nothing changes. -/
def fieldSizeLimit : ℕ := 128 * 1024

/-- `columns line rawRow` is the exception "Error: '{name}' line {line} has an inconsistent number
of columns: {rawRow}", and `csvError` what the `csv` module raises. -/
inductive Raised where
  | stopIteration
  | assertionError (message : String)
  | runtimeError (message : String)
  | typeError
  | valueError (message : String)
  | csvError (e : Csv.Error)
  | columns (line : ℕ) (rawRow : List String)
  deriving Repr, DecidableEq

structure SourceOptions where
  noHeaderRow : Bool
  customHeader : Option (List String)
  deriving Repr, DecidableEq

structure CsvSourceFile where
  /-- The lines that are still to be read of the file. -/
  lines : List (List Char)
  /-- `line_num` of the reader. -/
  lineNum : ℕ
  bytesRead : ℤ
  columns : Option (List String)
  /-- The headers that the warning queue is told are ignored. -/
  ignored : List (List String)
  deriving Repr, DecidableEq

namespace CsvSourceFile

def init (text : List Char) : CsvSourceFile := ⟨splitlines text, 0, -1, none, []⟩

/-- `byte_counter`, over the lines up to those that are left; what it counts are characters. -/
def pull (left : List (List Char)) (f : CsvSourceFile) : CsvSourceFile :=
  { f with
    lines := left
    lineNum := f.lineNum + (f.lines.length - left.length)
    bytesRead := f.bytesRead + (f.lines.take (f.lines.length - left.length)).flatten.length }

end CsvSourceFile

/-- `next` of the reader, which splits at commas whatever `--delimiter` says. -/
def nextRecord : Prog CsvSourceFile Raised (List String) := fun f =>
  match Csv.readRecord fieldSizeLimit ',' f.lines .start with
  | (.error e, left) => (.error (.csvError e), f.pull left)
  | (.ok none, left) => (.error .stopIteration, f.pull left)
  | (.ok (some record), left) => (.ok (record.map String.ofList), f.pull left)

def setupFile (options : SourceOptions) : Prog CsvSourceFile Raised Unit := do
  if options.noHeaderRow = false then
    let header ← nextRecord
    modify fun f => { f with columns := some header }
  match options.customHeader with
  | some customHeader => do
    if options.noHeaderRow = false then
      modify fun f => { f with ignored := f.ignored ++ [f.columns.getD []] }
    modify fun f => { f with columns := some customHeader }
  | none =>
    raiseIf (options.noHeaderRow = true)
      (.valueError "Error: No field name information available")

/-- `row[key] = value`. -/
def setItem (row : ReadToQueue.Row String) (key value : String) : ReadToQueue.Row String :=
  if key ∈ row.map Prod.fst then row.map fun item => if item.1 = key then (key, value) else item
  else row ++ [(key, value)]

/-- The row of a record; an empty field is none. -/
def toRow (columns rawRow : List String) : ReadToQueue.Row String :=
  (columns.zip rawRow).foldl (fun row item => if item.2 = "" then row
    else setItem row item.1 item.2) []

def getLine : Prog CsvSourceFile Raised (ReadToQueue.Row String) := do
  let rawRow ← nextRecord
  let columns ← ofExcept (← read fun f => match f.columns with
    | some columns => .ok columns
    | none => .error .typeError)
  raiseIf (columns.length ≠ rawRow.length) (.columns (← read CsvSourceFile.lineNum) rawRow)
  return toRow columns rawRow

/-! ### Batches -/

/-- `batches` while it runs, with the batches it has yielded. -/
structure Job where
  file : CsvSourceFile
  batch : List (ReadToQueue.Row String)
  yielded : List (List (ReadToQueue.Row String))
  deriving Repr, DecidableEq

namespace Job

def init (text : List Char) : Job := ⟨.init text, [], []⟩

def yieldBatch (j : Job) : Job := { j with yielded := j.yielded ++ [j.batch], batch := [] }

end Job

def onFile {α : Type} (m : Prog CsvSourceFile Raised α) : Prog Job Raised α :=
  zoom Job.file (fun file j => { j with file }) m

/-- One turn of the two loops taken as one; this file never needs more data. -/
def turn (batchSize : ℤ) : Prog Job Raised Bool := do
  if ← read fun j => decide ((j.batch.length : ℤ) < batchSize) then
    let row ← onFile getLine
    modify fun j => { j with batch := j.batch ++ [row] }
  else modify Job.yieldBatch
  pure true

/-- `batches`, without the table and the indexes in the database; `fuel` bounds its two loops. What
stops a generator from outside its `try` is no end of the file. -/
def batches (options : SourceOptions) (batchSize : Option ℤ) (fuel : ℕ) : Prog Job Raised Unit := do
  let batchSize := batchSize.getD ReadToQueue.defaultBatchSize
  raiseIf (batchSize ≤ 0) (.assertionError "Batch size can not be less than one")
  handle (onFile (setupFile options)) fun
    | .stopIteration => throw (.runtimeError "generator raised StopIteration")
    | e => throw e
  handle (turns (turn batchSize) fuel) fun
    | .stopIteration => modify fun j => if j.batch = [] then j else j.yieldBatch
    | e => throw e

/-! ### What a file comes to -/

def records (lines : List (List Char)) : List (List String) :=
  (Csv.records fieldSizeLimit ',' lines).1.map fun record => record.map String.ofList

/-- What the reader raises behind them. -/
def readerError (lines : List (List Char)) : Option Csv.Error :=
  (Csv.records fieldSizeLimit ',' lines).2

/-- The reader has come from `f` to `f'`. -/
structure Pulled (f f' : CsvSourceFile) : Prop where
  suffix : f'.lines <:+ f.lines
  bytes : f'.bytesRead + f'.lines.flatten.length = f.bytesRead + f.lines.flatten.length
  lineNum : f'.lineNum + f'.lines.length = f.lineNum + f.lines.length

theorem Pulled.refl (f : CsvSourceFile) : Pulled f f := ⟨List.suffix_rfl, rfl, rfl⟩

theorem Pulled.trans {f g h : CsvSourceFile} (hfg : Pulled f g) (hgh : Pulled g h) : Pulled f h :=
  ⟨hgh.suffix.trans hfg.suffix, hgh.bytes.trans hfg.bytes, hgh.lineNum.trans hfg.lineNum⟩

theorem pulled_pull {f : CsvSourceFile} {left : List (List Char)} (h : left <:+ f.lines) :
    Pulled f (f.pull left) := by
  obtain ⟨taken, htaken⟩ := h
  have hlength : f.lines.length - left.length = taken.length := by
    rw [← htaken, List.length_append]
    omega
  refine ⟨⟨taken, htaken⟩, ?_, ?_⟩
  · unfold CsvSourceFile.pull
    dsimp only
    rw [hlength, ← htaken, List.take_left, List.flatten_append, List.length_append]
    push_cast
    omega
  · unfold CsvSourceFile.pull
    dsimp only
    rw [hlength, ← htaken, List.length_append]
    omega

theorem nextRecord_spec (f : CsvSourceFile) :
    wp nextRecord (fun o f' => Pulled f f' ∧ f'.columns = f.columns ∧ f'.ignored = f.ignored ∧
      match o with
      | .ok record => records f.lines = record :: records f'.lines ∧
        readerError f.lines = readerError f'.lines ∧
          f'.lines.length < f.lines.length
      | .error e => records f.lines = [] ∧ ((e = .stopIteration ∧ readerError f.lines = none ∧
        f'.lines = []) ∨
          ∃ e', e = .csvError e' ∧ readerError f.lines = some e')
      | .running => False) f := by
  have hsuffix := Csv.readRecord_suffix fieldSizeLimit ',' f.lines .start
  unfold wp nextRecord
  split
  · rename_i e left hread
    rw [hread] at hsuffix
    have hrecords := Csv.records_error_nil hread
    refine ⟨pulled_pull hsuffix, rfl, rfl, ?_, .inr ⟨e, rfl, ?_⟩⟩
    · rw [records, hrecords]
      rfl
    · rw [readerError, hrecords]
  · rename_i left hread
    rw [hread] at hsuffix
    have hrecords := Csv.records_nil hread
    refine ⟨pulled_pull hsuffix, rfl, rfl, ?_, .inl ⟨rfl, ?_, Csv.readRecord_none _ hread⟩⟩
    · rw [records, hrecords]
      rfl
    · rw [readerError, hrecords]
  · rename_i record left hread
    rw [hread] at hsuffix
    have hrecords := Csv.records_cons hread
    refine ⟨pulled_pull hsuffix, rfl, rfl, ?_, ?_, Csv.readRecord_less _ _ hread⟩
    · rw [records, hrecords]
      rfl
    · rw [readerError, hrecords]
      rfl

theorem getLine_spec {f : CsvSourceFile} {columns : List String}
    (hcolumns : f.columns = some columns) :
    wp getLine (fun o f' => Pulled f f' ∧ f'.columns = some columns ∧ f'.ignored = f.ignored ∧
      match o with
      | .ok row => ∃ record, records f.lines = record :: records f'.lines ∧
          readerError f.lines = readerError f'.lines ∧ f'.lines.length < f.lines.length ∧
          record.length = columns.length ∧ row = toRow columns record
      | .error e => (records f.lines = [] ∧ ((e = .stopIteration ∧ readerError f.lines = none ∧
        f'.lines = []) ∨
            ∃ e', e = .csvError e' ∧ readerError f.lines = some e')) ∨
          ∃ record, records f.lines = record :: records f'.lines ∧ record.length ≠ columns.length ∧
            e = .columns f'.lineNum record
      | .running => False) f := by
  unfold getLine
  rw [wp_bind]
  apply (nextRecord_spec f).mono
  intro o f' hout
  obtain ⟨hpulled, hcol, hignored, hout⟩ := hout
  cases o with
  | ok record =>
    have hcol' : f'.columns = some columns := hcol.trans hcolumns
    rw [bindPost_ok, wp_bind, wp_read, bindPost_ok, hcol', wp_bind, wp_ofExcept_ok, bindPost_ok,
      wp_bind, wp_read, bindPost_ok]
    apply wp_raiseIf_bind
    · intro hlength
      exact ⟨hpulled, hcol', hignored, .inr ⟨record, hout.1, Ne.symm hlength, rfl⟩⟩
    · intro hlength
      rw [wp_pure]
      exact ⟨hpulled, hcol', hignored, record, hout.1, hout.2.1, hout.2.2,
        (not_not.mp hlength).symm, rfl⟩
  | error e => exact ⟨hpulled, hcol.trans hcolumns, hignored, .inl hout⟩
  | running => exact hout.elim

/-- The yielded batches are full, and the next is not fuller. -/
structure Full (n : ℕ) (j : Job) : Prop where
  yielded : ∀ batch ∈ j.yielded, batch.length = n
  batch : j.batch.length ≤ n

/-- From `j` to `j'` the rows of the records `before` have been read. -/
structure Delivered (columns : List String) (before : List (List String)) (j j' : Job) : Prop where
  pulled : Pulled j.file j'.file
  good : ∀ record ∈ before, record.length = columns.length
  rows : j'.yielded.flatten ++ j'.batch = j.yielded.flatten ++ j.batch ++ before.map (toRow columns)

theorem Delivered.trans {columns : List String} {before after : List (List String)} {j j' j'' : Job}
    (h : Delivered columns before j j') (h' : Delivered columns after j' j'') :
    Delivered columns (before ++ after) j j'' where
  pulled := h.pulled.trans h'.pulled
  good := by
    intro record hrecord
    rcases List.mem_append.mp hrecord with hrecord | hrecord
    · exact h.good record hrecord
    · exact h'.good record hrecord
  rows := by
    rw [h'.rows, h.rows, List.map_append, List.append_assoc _ _ (after.map _)]

/-- The loops are left from `j` on with `e`: at the end of the file, at what the `csv` module
raises, or at the first record that has not as many fields as there are columns. -/
structure Left (columns : List String) (n : ℕ) (j : Job) (e : Raised) (j' : Job)
    (before : List (List String)) :
    Prop where
  delivered : Delivered columns before j j'
  full : Full n j'
  short : j'.batch.length < n
  ignored : j'.file.ignored = j.file.ignored
  cause : match e with
    | .stopIteration => records j.file.lines = before ∧ readerError j.file.lines = none ∧
      j'.file.lines = []
    | .csvError e => records j.file.lines = before ∧ readerError j.file.lines = some e
    | .columns line record => line = j'.file.lineNum ∧ record.length ≠ columns.length ∧
        ∃ after, records j.file.lines = before ++ record :: after
    | _ => False

structure Gone (columns : List String) (n : ℕ) (j j' : Job) (taken : List (List String)) :
    Prop where
  delivered : Delivered columns taken j j'
  full : Full n j'
  columns : j'.file.columns = some columns
  ignored : j'.file.ignored = j.file.ignored
  records : records j.file.lines = taken ++ records j'.file.lines
  readerError : readerError j.file.lines = readerError j'.file.lines

theorem Left.before {columns : List String} {n : ℕ} {j j₁ j' : Job} {e : Raised}
    {taken before : List (List String)} (hone : Gone columns n j j₁ taken)
    (h : Left columns n j₁ e j' before) : Left columns n j e j' (taken ++ before) where
  delivered := hone.delivered.trans h.delivered
  full := h.full
  short := h.short
  ignored := h.ignored.trans hone.ignored
  cause := by
    have hcause := h.cause
    rw [hone.records, hone.readerError]
    cases e with
    | stopIteration =>
      obtain ⟨hall, hnone, hlines⟩ := hcause
      exact ⟨by rw [hall], hnone, hlines⟩
    | csvError e => exact ⟨by rw [hcause.1], hcause.2⟩
    | columns line record =>
      obtain ⟨hline, hlength, after, hall⟩ := hcause
      exact ⟨hline, hlength, after, by rw [hall, List.append_assoc]⟩
    | assertionError message => exact hcause.elim
    | runtimeError message => exact hcause.elim
    | typeError => exact hcause.elim
    | valueError message => exact hcause.elim

/-- What the loops have left to do. -/
def remains (n : ℕ) (j : Job) : ℕ := 2 * j.file.lines.length + if j.batch.length < n then 0 else 1

theorem turn_spec {columns : List String} {n : ℕ} (hn : 0 < n) {j : Job} (hfull : Full n j)
    (hcolumns : j.file.columns = some columns) :
    wp (turn n) (fun o j' => match o with
      | .ok more => more = true ∧ remains n j' < remains n j ∧ ∃ taken, Gone columns n j j' taken
      | .error e => Left columns n j e j' []
      | .running => False) j := by
  unfold turn
  rw [wp_bind, wp_read, bindPost_ok, wp_ite]
  constructor
  · intro hroom
    rw [decide_eq_true_eq, Nat.cast_lt] at hroom
    rw [wp_bind, onFile, wp_zoom]
    apply (getLine_spec hcolumns).mono
    intro o file hout
    obtain ⟨hpulled, hcol, hignored, hout⟩ := hout
    cases o with
    | ok row =>
      obtain ⟨record, hrecords, hfailure, hless, hlength, rfl⟩ := hout
      rw [bindPost_ok, wp_bind, wp_modify, bindPost_ok, wp_pure]
      refine ⟨rfl, ?_, [record], ⟨hpulled, by simpa using hlength, by simp⟩, ⟨hfull.yielded, ?_⟩,
        hcol, hignored, hrecords, hfailure⟩
      · unfold remains
        dsimp only
        split <;> omega
      · simp only [List.length_append, List.length_singleton]
        omega
    | error e =>
      refine ⟨⟨hpulled, by simp, by simp⟩, ⟨hfull.yielded, hfull.batch⟩, hroom, hignored, ?_⟩
      rcases hout with ⟨hnil, ⟨rfl, hnone, hlines⟩ | ⟨e', rfl, hsome⟩⟩
        | ⟨record, hrecords, hlength, rfl⟩
      · exact ⟨hnil, hnone, hlines⟩
      · exact ⟨hnil, hsome⟩
      · exact ⟨rfl, hlength, records file.lines, hrecords⟩
    | running => exact hout.elim
  · intro hroom
    rw [decide_eq_true_eq, Nat.cast_lt] at hroom
    rw [wp_bind, wp_modify, bindPost_ok, wp_pure]
    have hbatch : j.batch.length = n := le_antisymm hfull.batch (not_lt.mp hroom)
    refine ⟨rfl, ?_, [], ⟨.refl _, by simp, by simp [Job.yieldBatch]⟩, ⟨?_, Nat.zero_le n⟩,
      hcolumns, rfl, rfl,
      rfl⟩
    · unfold remains
      rw [if_neg hroom, if_pos (by simpa [Job.yieldBatch] using hn)]
      exact Nat.lt_succ_self _
    · intro batch h
      rcases List.mem_append.mp h with h | h
      · exact hfull.yielded batch h
      · rw [List.mem_singleton.mp h]
        exact hbatch

/-- The loops end by what they raise. The induction is on the turns. -/
theorem turns_spec {columns : List String} {n : ℕ} (hn : 0 < n) (fuel : ℕ) {j : Job}
    (hfull : Full n j) (hcolumns : j.file.columns = some columns) (hfuel : remains n j < fuel) :
    wp (turns (turn n) fuel) (fun o j' => ∃ e before, o = .error e ∧
      Left columns n j e j' before) j := by
  induction fuel generalizing j with
  | zero => omega
  | succ fuel ih =>
    unfold turns
    rw [wp_bind]
    apply (turn_spec hn hfull hcolumns).mono
    intro o j₁ hout
    cases o with
    | ok more =>
      obtain ⟨rfl, hless, taken, hgone⟩ := hout
      rw [bindPost_ok, if_pos rfl]
      apply (ih hgone.full hgone.columns (by omega)).mono
      rintro o j' ⟨e, before, rfl, hleft⟩
      exact ⟨e, taken ++ before, rfl, hleft.before hgone⟩
    | error e => exact ⟨e, [], rfl, hout⟩
    | running => exact hout.elim

/-- What the columns are called, and the records that are rows. -/
structure Headed (options : SourceOptions) (all : List (List String)) (columns : List String)
    (data : List (List String)) : Prop where
  named : options.noHeaderRow = true → options.customHeader ≠ none
  header : ∃ header, all = (if options.noHeaderRow then data else header :: data) ∧
    columns = options.customHeader.getD header

theorem setupFile_spec (options : SourceOptions) (f : CsvSourceFile) :
    wp (setupFile options) (fun o f' => Pulled f f' ∧ match o with
      | .ok _ => readerError f.lines = readerError f'.lines ∧ ∃ columns, f'.columns = some columns ∧
          Headed options (records f.lines) columns (records f'.lines)
      | .error e => (options.noHeaderRow = true ∧ options.customHeader = none ∧
            ∃ message, e = .valueError message) ∨
          (options.noHeaderRow = false ∧ records f.lines = [] ∧
            ((e = .stopIteration ∧ readerError f.lines = none) ∨
              ∃ e', e = .csvError e' ∧ readerError f.lines = some e'))
      | .running => False) f := by
  obtain ⟨noHeaderRow, customHeader⟩ := options
  unfold setupFile
  cases noHeaderRow with
  | false =>
    dsimp only
    rw [if_pos rfl, wp_bind]
    apply (nextRecord_spec f).mono
    intro o f' hout
    obtain ⟨hpulled, -, -, hout⟩ := hout
    cases o with
    | ok header =>
      obtain ⟨hrecords, hfailure, -⟩ := hout
      rw [bindPost_ok, wp_bind, wp_modify, bindPost_ok]
      cases customHeader with
      | none =>
        dsimp only
        rw [wp, raiseIf_neg (by simp)]
        exact ⟨⟨hpulled.suffix, hpulled.bytes, hpulled.lineNum⟩, hfailure, header, rfl,
          by simp, header, hrecords, rfl⟩
      | some custom =>
        dsimp only
        rw [if_pos rfl, wp_bind, wp_modify, bindPost_ok, wp_modify]
        exact ⟨⟨hpulled.suffix, hpulled.bytes, hpulled.lineNum⟩, hfailure, custom, rfl,
          by simp, header, hrecords, rfl⟩
    | error e =>
      refine ⟨hpulled, .inr ⟨rfl, hout.1, ?_⟩⟩
      rcases hout.2 with ⟨he, hnone, -⟩ | hsome
      · exact .inl ⟨he, hnone⟩
      · exact .inr hsome
    | running => exact hout.elim
  | true =>
    dsimp only
    rw [if_neg (by simp)]
    cases customHeader with
    | none =>
      dsimp only
      rw [wp, raiseIf_pos rfl]
      exact ⟨.refl f, .inl ⟨rfl, rfl, _, rfl⟩⟩
    | some custom =>
      dsimp only
      rw [if_neg (by simp), wp_modify]
      exact ⟨⟨List.suffix_rfl, rfl, rfl⟩, rfl, custom, rfl, by simp, [], rfl, rfl⟩

/-- What the rows read so far have come to: all but fewer than a batch are in full batches. -/
def Kept (n : ℕ) (rows : List (ReadToQueue.Row String))
    (yielded : List (List (ReadToQueue.Row String))) : Prop :=
  (∀ batch ∈ yielded, batch.length = n) ∧ ∃ lost, lost.length < n ∧ yielded.flatten ++ lost = rows

def Comes (options : SourceOptions) (n : ℕ) (text : List Char) (o : Outcome Raised Unit)
    (j : Job) : Prop :=
  let lines := splitlines text
  match o with
  | .ok _ => readerError lines = none ∧ ∃ columns data,
    Headed options (records lines) columns data ∧
      (∀ record ∈ data, record.length = columns.length) ∧
      Cut n (data.map (toRow columns)) j.yielded ∧
      j.file.bytesRead + 1 = text.length
  | .error (.columns line record) => line + j.file.lines.length = lines.length ∧
      ∃ columns before after, Headed options (records lines) columns (before ++ record :: after) ∧
        record.length ≠ columns.length ∧ (∀ r ∈ before, r.length = columns.length) ∧
        Kept n (before.map (toRow columns)) j.yielded
  | .error (.csvError e) => e = .fieldLimit fieldSizeLimit ∧ readerError lines = some e ∧
      ((records lines = [] ∧ j.yielded = []) ∨ ∃ columns data,
      Headed options (records lines) columns data ∧
        (∀ record ∈ data, record.length = columns.length) ∧
        Kept n (data.map (toRow columns)) j.yielded)
  | .error (.valueError _) => options.noHeaderRow = true ∧ options.customHeader = none ∧
    j.yielded = []
  | .error (.runtimeError _) => options.noHeaderRow = false ∧ text = [] ∧ j.yielded = []
  | _ => False

/-- The file can be imported whole: its columns have names, every record fits them and no field is
over the limit. -/
structure Importable (options : SourceOptions) (text : List Char) : Prop where
  within : readerError (splitlines text) = none
  fits : ∃ columns data, Headed options (records (splitlines text)) columns data ∧
    ∀ record ∈ data, record.length = columns.length

theorem Headed.unique {options : SourceOptions} {all data data' : List (List String)}
    {columns columns' : List String} (h : Headed options all columns data)
    (h' : Headed options all columns' data') : columns' = columns ∧ data' = data := by
  obtain ⟨noHeaderRow, customHeader⟩ := options
  obtain ⟨hnamed, header, hall, hcolumns⟩ := h
  obtain ⟨-, header', hall', hcolumns'⟩ := h'
  rw [hcolumns, hcolumns']
  cases noHeaderRow with
  | false =>
    have hsame := List.cons.inj (hall'.symm.trans hall)
    rw [hsame.1]
    exact ⟨rfl, hsame.2⟩
  | true =>
    obtain ⟨custom, hcustom⟩ := Option.ne_none_iff_exists'.mp (hnamed rfl)
    subst hcustom
    exact ⟨rfl, hall'.symm.trans hall⟩

/-- What comes to this ends without an error exactly where the file can be imported whole. -/
theorem Comes.ok_iff {options : SourceOptions} {n : ℕ} {text : List Char} {o : Outcome Raised Unit}
    {j : Job} (h : Comes options n text o j) : o = .ok () ↔ Importable options text := by
  constructor
  · rintro rfl
    obtain ⟨hwithin, columns, data, hheaded, hfits, -⟩ := h
    exact ⟨hwithin, columns, data, hheaded, hfits⟩
  · intro himportable
    obtain ⟨columns, data, hheaded, hfits⟩ := himportable.fits
    have hwithin := himportable.within
    cases o with
    | ok _ => rfl
    | running => exact h.elim
    | error e =>
      exfalso
      cases e with
      | columns line record =>
        obtain ⟨-, columns', before, after, hheaded', hlength, -⟩ := h
        obtain ⟨rfl, rfl⟩ := hheaded.unique hheaded'
        exact hlength (hfits record (by simp))
      | csvError e =>
        have hsome := h.2.1
        rw [hwithin] at hsome
        cases hsome
      | valueError message => exact hheaded.named h.1 h.2.1
      | runtimeError message =>
        obtain ⟨hheader, rfl, -⟩ := h
        obtain ⟨-, header, hall, -⟩ := hheaded
        rw [hheader, splitlines, records, Csv.records_nil rfl] at hall
        cases hall
      | stopIteration => exact h
      | assertionError message => exact h
      | typeError => exact h

theorem cut_end {n : ℕ} {j : Job} (hfull : ∀ batch ∈ j.yielded, batch.length = n)
    (hshort : j.batch.length < n) :
    Cut n (j.yielded.flatten ++ j.batch) (if j.batch = [] then j else j.yieldBatch).yielded := by
  have hne : ∀ batch ∈ j.yielded, batch ≠ [] ∧ batch.length ≤ n := by
    intro batch hbatch
    have hlength := hfull batch hbatch
    refine ⟨?_, hlength.le⟩
    rintro rfl
    rw [List.length_nil] at hlength
    omega
  by_cases hempty : j.batch = []
  · rw [if_pos hempty, hempty, List.append_nil]
    exact ⟨rfl, fun batch h => hfull batch ((List.dropLast_sublist _).subset h), hne⟩
  · rw [if_neg hempty]
    refine ⟨by simp [Job.yieldBatch], ?_, ?_⟩
    · intro batch h
      simp only [Job.yieldBatch, List.dropLast_concat] at h
      exact hfull batch h
    · intro batch h
      rcases List.mem_append.mp h with h | h
      · exact hne batch h
      · rw [List.mem_singleton.mp h]
        exact ⟨hempty, hshort.le⟩

theorem text_eq_nil {text : List Char} (hrecords : records (splitlines text) = [])
    (hfailure : readerError (splitlines text) = none) : text = [] := by
  by_contra hne
  have hlines : splitlines text ≠ [] := fun h => hne (splitlines_eq_nil.mp h)
  cases hread : Csv.readRecord fieldSizeLimit ',' (splitlines text) .start with
  | mk result left =>
    cases result with
    | error e =>
      rw [readerError, Csv.records_error_nil hread] at hfailure
      cases hfailure
    | ok record =>
      cases record with
      | none => exact Csv.readRecord_ne_none (fun h => absurd h hlines) hread
      | some record =>
        rw [records, Csv.records_cons hread] at hrecords
        cases hrecords

theorem readerError_limit {text : List Char} {e : Csv.Error}
    (h : readerError (splitlines text) = some e) :
    e = .fieldLimit fieldSizeLimit :=
  Csv.records_error _ (Csv.line_of_mem_splitlines text) h

theorem batches_comes (options : SourceOptions) {batchSize : Option ℤ} {n : ℕ} (hn : 0 < n)
    (hsize : batchSize.getD ReadToQueue.defaultBatchSize = n) (text : List Char) {fuel : ℕ}
    (hfuel : 2 * (splitlines text).length < fuel) :
    wp (batches options batchSize fuel) (Comes options n text) (.init text) := by
  unfold batches
  rw [hsize]
  refine (wp_raiseIf_bind_not (by omega)).mpr ?_
  rw [wp_bind, wp_handle, onFile, wp_zoom]
  apply (setupFile_spec options (.init text)).mono
  intro o file hout
  obtain ⟨hpulled, hout⟩ := hout
  cases o with
  | ok =>
    obtain ⟨hfailure, columns, hcolumns, hheaded⟩ := hout
    rw [handlePost_ok, bindPost_ok, wp_handle]
    have hless := hpulled.suffix.length_le
    have hremains : remains n { Job.init text with file } < fuel := by
      unfold remains
      rw [if_pos (by simpa [Job.init] using hn)]
      exact (Nat.mul_le_mul_left 2 hless).trans_lt hfuel
    have hfull : Full n { Job.init text with file } := ⟨by simp [Job.init], Nat.zero_le n⟩
    apply (turns_spec hn fuel hfull hcolumns hremains).mono
    rintro _ j ⟨e, before, rfl, hleft⟩
    rw [handlePost_error]
    have hrows : j.yielded.flatten ++ j.batch = before.map (toRow columns) := hleft.delivered.rows
    have hcause := hleft.cause
    have hkept : Kept n (before.map (toRow columns)) j.yielded :=
      ⟨hleft.full.yielded, j.batch, hleft.short, hrows⟩
    cases e with
    | stopIteration =>
      obtain ⟨hall, hnone, hlines⟩ := hcause
      dsimp only
      rw [wp_modify]
      refine ⟨hfailure.trans hnone, columns, before, hall ▸ hheaded, hleft.delivered.good, ?_, ?_⟩
      · rw [← hrows]
        exact cut_end hleft.full.yielded hleft.short
      · have hbytes := (hpulled.trans hleft.delivered.pulled).bytes
        rw [hlines] at hbytes
        have hlength : (splitlines text).flatten.length = text.length := by rw [flatten_splitlines]
        have hsame : (if j.batch = [] then j else j.yieldBatch).file = j.file := by
          split_ifs <;> rfl
        rw [hsame]
        change j.file.bytesRead + (0 : ℕ) = -1 + (splitlines text).flatten.length at hbytes
        omega
    | csvError e =>
      obtain ⟨hall, hsome⟩ := hcause
      exact ⟨readerError_limit (hfailure.trans hsome), hfailure.trans hsome,
        .inr ⟨columns, before, hall ▸ hheaded, hleft.delivered.good, hkept⟩⟩
    | columns line record =>
      obtain ⟨hline, hlength, after, hall⟩ := hcause
      have hnum := (hpulled.trans hleft.delivered.pulled).lineNum
      refine ⟨?_, columns, before, after, hall ▸ hheaded, hlength, hleft.delivered.good, hkept⟩
      change j.file.lineNum + j.file.lines.length = 0 + (splitlines text).length at hnum
      change line + j.file.lines.length = (splitlines text).length
      omega
    | assertionError message => exact hcause.elim
    | runtimeError message => exact hcause.elim
    | typeError => exact hcause.elim
    | valueError message => exact hcause.elim
  | error e =>
    rcases hout with ⟨hno, hcustom, message, rfl⟩ | ⟨hheader, hnil, ⟨rfl, hnone⟩ | ⟨e', rfl, hsome⟩⟩
    · exact ⟨hno, hcustom, rfl⟩
    · exact ⟨hheader, text_eq_nil hnil hnone, rfl⟩
    · exact ⟨readerError_limit hsome, hsome, .inl ⟨hnil, rfl⟩⟩
  | running => exact hout.elim

/-- Whatever the file: the rows are those of its records, in order and in full batches but for the
last, up to the first record with a field too many or too few, or to a field over the limit. There
are no other errors of the file, and none where all of it can be imported. -/
theorem csv_batches (options : SourceOptions) {batchSize : Option ℤ} {n : ℕ} (hn : 0 < n)
    (hsize : batchSize.getD ReadToQueue.defaultBatchSize = n) (text : List Char) {fuel : ℕ}
    (hfuel : 2 * (splitlines text).length < fuel) :
    wp (batches options batchSize fuel)
      (fun o j => Comes options n text o j ∧ (o = .ok () ↔ Importable options text))
        (.init text) := by
  apply (batches_comes options hn hsize text hfuel).mono
  intro o j hcomes
  exact ⟨hcomes, hcomes.ok_iff⟩

/-- A second row with a field too many. -/
theorem csv_batches_inconsistent :
    wp (batches ⟨false, none⟩ (some 2) 20)
      (fun o j => Comes ⟨false, none⟩ 2 "id,a\n1,\"x\ny\"\n2,,3\n".toList o j ∧
        (o = .ok () ↔ Importable ⟨false, none⟩ "id,a\n1,\"x\ny\"\n2,,3\n".toList))
      (.init "id,a\n1,\"x\ny\"\n2,,3\n".toList) := by
  generalize htext : "id,a\n1,\"x\ny\"\n2,,3\n".toList = text
  have hfuel : 2 * (splitlines text).length < 20 := by
    rw [← htext]
    decide +kernel
  exact csv_batches ⟨false, none⟩ (by omega) rfl text hfuel

end RethinkDB.Import.CsvSource
