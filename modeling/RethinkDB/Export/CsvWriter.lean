import RethinkDB.Import.CsvSource
import RethinkDB.Lib.Json

/-! `csv_writer`, and what an import makes of its file. -/
namespace RethinkDB.Export.CsvWriter
open RethinkDB.Lib Prog
open RethinkDB.Import.ReadToQueue (Row Cut)
open RethinkDB.Import.CsvSource

section Writer
-- `json.dumps`, and `str` of a float
variable (dumps : Json → List Char) (floatStr : PyFloat → List Char)

/-- The text of a field: numbers and texts as they are, the rest as JSON; of a Boolean, which is a
number, Python's name. A field that the row does not have is `None`, which is written like `""`. -/
def text (row : Row Json) (field : String) : List Char :=
  match row.lookup field with
  | none => []
  | some (.bool true) => "True".toList
  | some (.bool false) => "False".toList
  | some (.int n) => (toString n).toList
  | some (.float x) => floatStr x
  | some (.str s) => s.toList
  | some value => dumps value

/-- The file, of the rows up to the `StopIteration` of the queue. -/
def csvWriter (delimiter : Char) (fields : List String) (rows : List (Row Json)) : List Char :=
  (fields.map String.toList :: rows.map fun row => fields.map (text dumps floatStr row)).flatMap
    (Csv.renderRow delimiter)

end Writer

/-! ### Rows that come back -/

theorem lookup_append (row row' : Row String) (f : String) :
    (row ++ row').lookup f = (row.lookup f).or (row'.lookup f) := by
  induction row with
  | nil => rfl
  | cons item row ih =>
    obtain ⟨key, value⟩ := item
    by_cases h : f = key
    · simp [h]
    · have hkey : (f == key) = false := by simpa using h
      simp only [List.cons_append, List.lookup_cons, hkey, ih]

theorem lookup_eq_none {row : Row String} {f : String} (h : f ∉ row.map Prod.fst) :
    row.lookup f = none := by
  rw [List.lookup_eq_none_iff]
  intro item hitem
  rw [bne_iff_ne]
  rintro rfl
  exact h (List.mem_map_of_mem hitem)

theorem lookup_setItem (row : Row String) (key value f : String) :
    (setItem row key value).lookup f = if f = key then some value else row.lookup f := by
  unfold setItem
  split_ifs with hmem hf hf
  · subst hf
    induction row with
    | nil => cases hmem
    | cons item row ih =>
      by_cases h : item.1 = f
      · simp [h]
      · have hkey : (f == item.1) = false := by simpa using Ne.symm h
        rw [List.map_cons, if_neg h, List.lookup_cons, hkey]
        rw [List.map_cons, List.mem_cons] at hmem
        exact ih (hmem.resolve_left (Ne.symm h))
  · clear hmem
    induction row with
    | nil => rfl
    | cons item row ih =>
      by_cases h : item.1 = key
      · have hkey : (f == key) = false := by simpa using hf
        rw [List.map_cons, if_pos h, List.lookup_cons, hkey, ih, List.lookup_cons, h, hkey]
      · rw [List.map_cons, if_neg h, List.lookup_cons, List.lookup_cons, ih]
  · subst hf
    rw [lookup_append, lookup_eq_none hmem]
    simp
  · have hkey : (f == key) = false := by simpa using hf
    rw [lookup_append, List.lookup_cons, hkey, List.lookup_nil, Option.or_none]

/-- The induction is on the fields. -/
theorem lookup_toRow (fields : List String) (g : String → String) (f : String) :
    (toRow fields (fields.map g)).lookup f = if f ∈ fields ∧ g f ≠ "" then some (g f)
      else none := by
  have hall : ∀ (fields : List String) (row : Row String),
      ((fields.zip (fields.map g)).foldl
        (fun row item => if item.2 = "" then row else setItem row item.1 item.2) row).lookup f =
      if f ∈ fields ∧ g f ≠ "" then some (g f) else row.lookup f := by
    intro fields
    induction fields with
    | nil => simp
    | cons field fields ih =>
      intro row
      rw [List.map_cons, List.zip_cons_cons, List.foldl_cons, ih]
      by_cases hmem : f ∈ fields ∧ g f ≠ ""
      · rw [if_pos hmem, if_pos ⟨List.mem_cons_of_mem _ hmem.1, hmem.2⟩]
      · rw [if_neg hmem]
        by_cases hempty : g field = ""
        · have hnot : ¬ (f ∈ field :: fields ∧ g f ≠ "") := by
            rintro ⟨hf, hne⟩
            rcases List.mem_cons.mp hf with rfl | hf
            · exact hne hempty
            · exact hmem ⟨hf, hne⟩
          rw [if_pos hempty, if_neg hnot]
        · rw [if_neg hempty, lookup_setItem]
          by_cases hf : f = field
          · subst hf
            rw [if_pos rfl, if_pos ⟨List.mem_cons_self, hempty⟩]
          · have hnot : ¬ (f ∈ field :: fields ∧ g f ≠ "") := by
              rintro ⟨hf', hne⟩
              exact hmem ⟨(List.mem_cons.mp hf').resolve_left hf, hne⟩
            rw [if_neg hf, if_neg hnot]
  exact hall fields []

/-! ### The round trip -/

section RoundTrip
variable {dumps : Json → List Char} {floatStr : PyFloat → List Char} {fields : List String}

/-- What an import makes of a row: the fields that are not empty, as texts. -/
def Imported (dumps : Json → List Char) (floatStr : PyFloat → List Char) (fields : List String)
    (row : Row Json) (imported : Row String) : Prop :=
  ∀ f, imported.lookup f = if f ∈ fields ∧ text dumps floatStr row f ≠ [] then
    some (String.ofList (text dumps floatStr row f)) else none

theorem imported_toRow (row : Row Json) : Imported dumps floatStr fields row
    (toRow fields (fields.map fun field => String.ofList (text dumps floatStr row field))) := by
  intro f
  rw [lookup_toRow fields (fun field => String.ofList (text dumps floatStr row field))]
  have hempty : String.ofList (text dumps floatStr row f) = "" ↔
      text dumps floatStr row f = [] := by
    constructor
    · intro h
      rw [← String.toList_ofList (l := text dumps floatStr row f), h]
      rfl
    · intro h
      rw [h]
  simp only [ne_eq, hempty]

theorem records_csvWriter {rows : List (Row Json)}
    (hheader : ∀ field ∈ fields, Csv.Readable fieldSizeLimit ',' field.toList)
    (hrows : ∀ row ∈ rows, ∀ field ∈ fields,
      Csv.Readable fieldSizeLimit ',' (text dumps floatStr row field)) :
    Csv.records fieldSizeLimit ',' (splitlines (csvWriter dumps floatStr ',' fields rows)) =
      (fields.map String.toList :: rows.map fun row => fields.map (text dumps floatStr row),
      none) := by
  refine Csv.records_rows ⟨by decide, by decide, by decide⟩ ?_
  rw [List.forall_mem_cons]
  constructor
  · intro field hfield
    obtain ⟨f, hf, rfl⟩ := List.mem_map.mp hfield
    exact hheader f hf
  · intro cells hcells field hfield
    obtain ⟨row, hrow, rfl⟩ := List.mem_map.mp hcells
    obtain ⟨f, hf, rfl⟩ := List.mem_map.mp hfield
    exact hrows row hrow f hf

/-- An import of what was exported with the default delimiter gives back every row, in order, each
field as its text and the empty ones left out, provided that no text is over the limit of the reader
and that one with an unusual line break has a character besides for which it is quoted. -/
theorem batches_csvWriter {rows : List (Row Json)}
    (hheader : ∀ field ∈ fields, Csv.Readable fieldSizeLimit ',' field.toList)
    (hrows : ∀ row ∈ rows, ∀ field ∈ fields,
      Csv.Readable fieldSizeLimit ',' (text dumps floatStr row field))
    {batchSize : Option ℤ} {n : ℕ} (hn : 0 < n)
    (hsize : batchSize.getD RethinkDB.Import.ReadToQueue.defaultBatchSize = n) {fuel : ℕ}
    (hfuel : 2 * (splitlines (csvWriter dumps floatStr ',' fields rows)).length < fuel) :
    wp (batches ⟨false, none⟩ batchSize fuel) (fun o j => o = .ok () ∧
      (∃ imported, Cut n imported j.yielded ∧
        List.Forall₂ (Imported dumps floatStr fields) rows imported) ∧
      j.file.bytesRead + 1 = (csvWriter dumps floatStr ',' fields rows).length)
      (.init (csvWriter dumps floatStr ',' fields rows)) := by
  have hread := records_csvWriter hheader hrows
  have herror : readerError (splitlines (csvWriter dumps floatStr ',' fields rows)) = none := by
    rw [readerError, hread]
  have hrecords : records (splitlines (csvWriter dumps floatStr ',' fields rows)) =
      fields :: rows.map fun row => fields.map fun field =>
      String.ofList (text dumps floatStr row field) := by
    rw [records, hread, List.map_cons, List.map_map, List.map_map]
    congr 1
    · rw [List.map_congr_left (g := id) (by simp), List.map_id]
    · refine List.map_congr_left fun row _ => ?_
      simp
  have hheaded : ∀ {columns data}, Headed ⟨false, none⟩
      (records (splitlines (csvWriter dumps floatStr ',' fields rows))) columns data →
      columns = fields ∧
        data = rows.map fun row => fields.map fun field =>
        String.ofList (text dumps floatStr row field) := by
    rintro columns data ⟨-, header, hall, rfl⟩
    rw [hrecords] at hall
    exact ⟨(List.cons.inj hall).1.symm, (List.cons.inj hall).2.symm⟩
  apply (batches_comes ⟨false, none⟩ hn hsize _ hfuel).mono
  rintro (_ | e | _) j hcomes
  · obtain ⟨-, columns, data, hhead, -, hcut, hbytes⟩ := hcomes
    obtain ⟨rfl, rfl⟩ := hheaded hhead
    refine ⟨rfl, ⟨_, hcut, ?_⟩, hbytes⟩
    rw [List.map_map, List.forall₂_map_right_iff]
    exact List.forall₂_same.mpr fun row _ => imported_toRow row
  · exfalso
    cases e with
    | columns line record =>
      obtain ⟨-, columns, before, after, hhead, hlength, -⟩ := hcomes
      obtain ⟨rfl, hdata⟩ := hheaded hhead
      have hmem : record ∈ before ++ record :: after := by simp
      rw [hdata] at hmem
      obtain ⟨row, -, rfl⟩ := List.mem_map.mp hmem
      exact hlength (List.length_map _)
    | csvError e =>
      have hsome := hcomes.2.1
      rw [herror] at hsome
      cases hsome
    | valueError message => cases hcomes.1
    | runtimeError message =>
      obtain ⟨-, hnil, -⟩ := hcomes
      rw [hnil, records, splitlines, Csv.records_nil rfl] at hrecords
      cases hrecords
    | stopIteration => exact hcomes
    | assertionError message => exact hcomes
    | typeError => exact hcomes
  · exact hcomes.elim

end RoundTrip

/-- Rows with a delimiter, quotes, line breaks, a `null` and a missing field. -/
def sampleRows : List (Row Json) :=
  [[("id", .int 1), ("a", .str "x,\"y\"\nz\u2028")], [("a", .null)],
    [("id", .bool true), ("b", .int 2)]]

theorem batches_csvWriter_sample :
    wp (batches ⟨false, none⟩ (some 2) 30) (fun o j => o = .ok () ∧
      (∃ imported, Cut 2 imported j.yielded ∧
        List.Forall₂ (Imported (fun _ => "null".toList) (fun _ => [])
        ["id", "a"]) sampleRows imported) ∧
      j.file.bytesRead + 1 =
        (csvWriter (fun _ => "null".toList) (fun _ => []) ',' ["id", "a"] sampleRows).length)
      (.init (csvWriter (fun _ => "null".toList) (fun _ => []) ',' ["id", "a"] sampleRows)) := by
  have hheader : ∀ field ∈ ["id", "a"], Csv.Readable fieldSizeLimit ',' field.toList := by
    simp only [List.forall_mem_cons, List.not_mem_nil, false_imp_iff, implies_true, and_true]
    decide
  have hrows : ∀ row ∈ sampleRows, ∀ field ∈ ["id", "a"],
      Csv.Readable fieldSizeLimit ',' (text (fun _ => "null".toList) (fun _ => []) row field) := by
    simp only [sampleRows, List.forall_mem_cons, List.not_mem_nil, false_imp_iff, implies_true,
      and_true]
    decide
  exact batches_csvWriter hheader hrows (by decide +kernel) rfl (by decide +kernel)

/-- A form feed is a line break of `str.splitlines` that the writer does not quote. -/
example : (Csv.readRecord fieldSizeLimit ','
    (splitlines (Csv.renderRow ',' ["a\x0cb".toList])) .start).1 = .ok (some ["a\x0c".toList]) := by
  decide +kernel

end RethinkDB.Export.CsvWriter
