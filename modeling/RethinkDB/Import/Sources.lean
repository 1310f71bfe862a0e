import RethinkDB.Import.Metadata
import RethinkDB.Lib.Except
import RethinkDB.Lib.Path
import RethinkDB.Utils.Selector

/-! `parse_sources` of `rethinkdb/_import.py` for a directory: the data files it finds, and whether
it notices two of one table. -/
namespace RethinkDB.Import
open RethinkDB.Lib Path Utils

/-- What is in a directory. A file that can not be opened has no text. -/
inductive Entry where
  | file (text : Option String)
  | dir (entries : List (String × Entry))

namespace Entry

def isFile : Entry → Bool
  | file _ => true
  | dir _ => false

def entries : Entry → List (String × Entry)
  | file _ => []
  | dir entries => entries

end Entry

/-- The names of the files of a directory, or of the directories in it. -/
def names (files : Bool) (entries : List (String × Entry)) : List String :=
  (entries.filter fun e => e.2.isFile = files).map Prod.fst

inductive FileFormat where
  | json
  | csv
  deriving Repr, DecidableEq

/-- A `SourceFile` with the path it was made of. -/
structure Source where
  path : String × String
  format : FileFormat
  file : SourceFile

/-- `(source.db, source.table)`. -/
def Source.key (source : Source) : String × String := (source.file.db, source.file.table)

/-- `duplicate` is the `RuntimeError` "Error: Duplicate db.table found in directory tree:
{db}.{table}", `writeHooks` the `Exception` "RDB versions below doesn't support write-hooks". The
others are what the `.info` file, or opening the data file, comes to. -/
inductive SourcesExn where
  | duplicate (db table : String)
  | writeHooks
  | info (path : String × String)
  | unopened (path : String × String)
  | zeroLength (path : String × String)
  deriving Repr, DecidableEq

structure Options where
  dbTables : List DbTable
  indexes : Bool
  hasWriteHooks : Bool

/-- `files_ignored` has the directory, where it is not the top one, and the name of each. -/
structure Scan where
  filesIgnored : List (Option String × String)
  sources : List Source

section Parse
-- `json.load`, on a text
variable (loads : String → Option Json) (o : Options)

def tableOf (filename : String) : String :=
  .ofList (basename (splitext filename.toList).1)

def extOf (filename : String) : String := .ofList (splitext filename.toList).2

def infoName (table : String) : String := table ++ ".info"

def loadInfo (db table : String) (entries : List (String × Entry)) : Except SourcesExn Metadata :=
  match entries.lookup (infoName table) with
  | some (.file text) => match text.bind (parseInfoFile loads o.indexes) with
    | some metadata => .ok metadata
    | none => .error (.info (db, infoName table))
  | _ => .ok ⟨none, [], .null⟩

/-- `table_type(source=path, ...)`. -/
def openSource (db table filename : String) (format : FileFormat)
    (entries : List (String × Entry)) (metadata : Metadata) : Except SourcesExn Source :=
  match entries.lookup filename with
  | some (.file (some text)) =>
    if text = "" then .error (.zeroLength (db, filename))
    else .ok ⟨(db, filename), format, .ofMetadata db table metadata⟩
  | _ => .error (.unopened (db, filename))

def loadSource (db filename : String) (entries : List (String × Entry)) :
    Except SourcesExn Source := do
  let table := tableOf filename
  let metadata ← loadInfo loads o db table entries
  if metadata.writeHook.truthy ∧ ¬o.hasWriteHooks then .error .writeHooks
  else
    let format := if extOf filename = ".json" then FileFormat.json else .csv
    openSource db table filename format entries metadata

/-- `table == source`: a `str` is no `SourceFile`, whatever its hash. -/
def strEq (_ : String) (_ : Source) : Bool := false

/-- `table in sources`. -/
def contains (table : String) (sources : List Source) : Bool := sources.any (strEq table)

def ignoreFile (scan : Scan) (db filename : String) : Scan :=
  { scan with filesIgnored := scan.filesIgnored ++ [(some db, filename)] }

/-- One turn of the loop over the files of a database. No two sources are equal. -/
def scanFile (db : String) (entries : List (String × Entry)) (scan : Scan) (filename : String) :
    Except SourcesExn Scan :=
  let table := tableOf filename
  let ext := extOf filename
  let info := entries.lookup (infoName table)
  if ext ∉ [".json", ".csv", ".info"] then .ok (ignoreFile scan db filename)
  else if ext = ".info" then .ok scan
  else if info.isNone then .ok (ignoreFile scan db filename)
  else if ¬Selects o.dbTables db table then .ok (ignoreFile scan db filename)
  else do
    let scan := if info.any Entry.isFile then scan else ignoreFile scan db filename
    let source ← loadSource loads o db filename entries
    if contains table scan.sources then .error (.duplicate source.file.db source.file.table)
    else return { scan with sources := scan.sources ++ [source] }

/-- One directory below the top one; nothing further down is looked at. -/
def scanDb (scan : Scan) (folder : String × Entry) : Except SourcesExn Scan :=
  let entries := folder.2.entries
  let ignored := (names false entries).map fun name => (some folder.1, name)
  (names true entries).foldlM (scanFile loads o folder.1 entries)
    { scan with filesIgnored := scan.filesIgnored ++ ignored }

/-- The directories that `os.walk` goes on to from the top one. -/
def folders (top : List (String × Entry)) : List (String × Entry) :=
  top.filter fun e => !e.2.isFile && (o.dbTables = [] || e.1 ∈ o.dbTables.map DbTable.db)

/-- `parse_sources`, where the option is a directory. -/
def parseDirectory (top : List (String × Entry)) : Except SourcesExn Scan :=
  (folders o top).foldlM (scanDb loads o)
    ⟨(names true top).map fun name => (none, name), []⟩

end Parse

/-! ### What the directory holds -/

/-- A file one level down: the name of its database, its own, and what is around it. -/
structure Found where
  db : String
  filename : String
  entries : List (String × Entry)

namespace Found

def table (f : Found) : String := tableOf f.filename

def key (f : Found) : String × String := (f.db, f.table)

def path (f : Found) : String × String := (f.db, f.filename)

end Found

def filesOf (folder : String × Entry) : List Found :=
  (names true folder.2.entries).map fun name => ⟨folder.1, name, folder.2.entries⟩

def found (top : List (String × Entry)) : List Found :=
  (top.filter fun e => !e.2.isFile).flatMap filesOf

/-- A data file that the filter selects, with an entry for its metadata. -/
def Found.Collected (o : Options) (f : Found) : Prop :=
  extOf f.filename ∈ [".json", ".csv"] ∧ (f.entries.lookup (infoName f.table)).isSome ∧
    Selects o.dbTables f.db f.table

instance (o : Options) (f : Found) : Decidable (f.Collected o) :=
  inferInstanceAs (Decidable (_ ∧ _ ∧ _))

/-- The same with a file for its metadata. -/
def Found.Selected (o : Options) (f : Found) : Prop :=
  f.Collected o ∧ (f.entries.lookup (infoName f.table)).any Entry.isFile

instance (o : Options) (f : Found) : Decidable (f.Selected o) := inferInstanceAs (Decidable (_ ∧ _))

def collected (o : Options) (top : List (String × Entry)) : List Found :=
  (found top).filter fun f => f.Collected o

def selected (o : Options) (top : List (String × Entry)) : List Found :=
  (found top).filter fun f => f.Selected o

/-! ### The sources are those of the collected files -/

section Sources
variable {loads : String → Option Json} {o : Options}

def Found.load (loads : String → Option Json) (o : Options) (f : Found) : Except SourcesExn Source :=
  loadSource loads o f.db f.filename f.entries

theorem openSource_eq_ok {db table filename : String} {format : FileFormat}
    {entries : List (String × Entry)} {metadata : Metadata} {s : Source}
    (h : openSource db table filename format entries metadata = .ok s) :
    s.path = (db, filename) ∧ s.key = (db, table) := by
  unfold openSource at h
  split at h
  · split_ifs at h
    cases h
    exact ⟨rfl, rfl⟩
  · cases h

theorem load_eq_ok {f : Found} {s : Source} (h : f.load loads o = .ok s) :
    s.path = f.path ∧ s.key = f.key := by
  obtain ⟨metadata, -, h⟩ := bind_eq_ok.mp h
  by_cases hhook : metadata.writeHook.truthy ∧ ¬o.hasWriteHooks
  · rw [if_pos hhook] at h
    cases h
  · rw [if_neg hhook] at h
    exact openSource_eq_ok h

/-- No file makes the loading of it end in the error for duplicates. -/
theorem load_ne_duplicate (f : Found) (db table : String) :
    f.load loads o ≠ .error (.duplicate db table) := by
  intro h
  cases bind_eq_error.mp h with
  | inl h =>
    unfold loadInfo at h
    split at h
    · split at h
      · cases h
      · cases h
    · cases h
  | inr h =>
    obtain ⟨metadata, -, h⟩ := h
    dsimp only at h
    by_cases hhook : metadata.writeHook.truthy ∧ ¬o.hasWriteHooks
    · rw [if_pos hhook] at h
      cases h
    · rw [if_neg hhook] at h
      unfold openSource at h
      split at h
      · split_ifs at h
        cases h
      · cases h

theorem contains_eq_false (table : String) (sources : List Source) :
    contains table sources = false :=
  List.any_eq_false.mpr fun _ _ => Bool.false_ne_true

theorem scanFile_of_collected {f : Found} (hf : f.Collected o) (scan : Scan) :
    (scanFile loads o f.db f.entries scan f.filename).map Scan.sources =
      (f.load loads o).map fun source => scan.sources ++ [source] := by
  obtain ⟨hext, hinfo, hselects⟩ := hf
  have hknown : extOf f.filename ∈ [".json", ".csv", ".info"] := by
    simp only [List.mem_cons, List.not_mem_nil, or_false] at hext ⊢
    cases hext with
    | inl hjson => exact .inl hjson
    | inr hcsv => exact .inr (.inl hcsv)
  have hdata : extOf f.filename ≠ ".info" := by
    intro heq
    rw [heq] at hext
    exact absurd hext (by decide)
  have hnone : (f.entries.lookup (infoName (tableOf f.filename))).isNone = false := by
    rw [← Bool.not_eq_true, Option.isNone_iff_eq_none]
    exact Option.isSome_iff_ne_none.mp hinfo
  have hselects : Selects o.dbTables f.db (tableOf f.filename) := hselects
  unfold scanFile
  rw [if_neg (not_not.mpr hknown), if_neg hdata, hnone, if_neg Bool.false_ne_true,
    if_neg (not_not.mpr hselects)]
  change Except.map _ (f.load loads o >>= _) = _
  cases f.load loads o with
  | error e => rfl
  | ok source =>
    change Except.map _ (if contains _ _ = true then _ else _) = _
    rw [contains_eq_false, if_neg Bool.false_ne_true]
    change Except.ok ((if _ then scan else _ : Scan).sources ++ [source]) = _
    split_ifs
    · rfl
    · rfl

theorem scanFile_of_not_collected {f : Found} (hf : ¬f.Collected o) (scan : Scan) :
    (scanFile loads o f.db f.entries scan f.filename).map Scan.sources = .ok scan.sources := by
  unfold scanFile
  dsimp only
  by_cases hknown : extOf f.filename ∈ [".json", ".csv", ".info"]
  · rw [if_neg (not_not.mpr hknown)]
    by_cases hinfo : extOf f.filename = ".info"
    · rw [if_pos hinfo]
      rfl
    rw [if_neg hinfo]
    by_cases hnone : (f.entries.lookup (infoName (tableOf f.filename))).isNone = true
    · rw [if_pos hnone]
      rfl
    rw [if_neg hnone]
    by_cases hselects : Selects o.dbTables f.db (tableOf f.filename)
    · exfalso
      apply hf
      refine ⟨?_, Option.isSome_iff_ne_none.mpr ?_, hselects⟩
      · simp only [List.mem_cons, List.not_mem_nil, or_false] at hknown ⊢
        exact hknown.imp_right fun hrest => hrest.resolve_right hinfo
      · exact fun h => hnone (Option.isNone_iff_eq_none.mpr h)
    · rw [if_pos hselects]
      rfl
  · rw [if_pos hknown]
    rfl

/-- The collected ones among the files of a directory. -/
def collectedOf (o : Options) (folder : String × Entry) : List Found :=
  (filesOf folder).filter fun f => f.Collected o

theorem scanDb_sources (scan : Scan) (folder : String × Entry) :
    (scanDb loads o scan folder).map Scan.sources =
      ((collectedOf o folder).mapM (Found.load loads o)).map fun sources =>
        scan.sources ++ sources := by
  let file (name : String) : Found := ⟨folder.1, name, folder.2.entries⟩
  have hfile : ∀ (scan : Scan) (name : String),
      (scanFile loads o folder.1 folder.2.entries scan name).map Scan.sources =
        (([file name].filter fun f => f.Collected o).mapM (Found.load loads o)).map fun sources =>
          scan.sources ++ sources := by
    intro scan name
    by_cases hf : (file name).Collected o
    · rw [scanFile_of_collected hf, List.filter_cons_of_pos (by simpa using hf), List.filter_nil,
        List.mapM_cons]
      cases (file name).load loads o with
      | error e => rfl
      | ok source => rfl
    · rw [scanFile_of_not_collected hf, List.filter_cons_of_neg (by simpa using hf), List.filter_nil]
      exact congrArg Except.ok (List.append_nil _).symm
  unfold scanDb
  dsimp only
  rw [foldlM_mapM hfile]
  have hnames : ∀ names : List String,
      names.flatMap (fun name => [file name].filter fun f => f.Collected o) =
        (names.map file).filter fun f => f.Collected o := by
    intro names
    induction names with
    | nil => rfl
    | cons name names ih =>
      rw [List.flatMap_cons, List.map_cons, ih, ← List.filter_append]
      rfl
  rw [hnames]
  rfl

theorem flatMap_filter_and {α β : Type} {p q : α → Bool} {g : α → List β}
    (h : ∀ x, q x = false → g x = []) (xs : List α) :
    (xs.filter fun x => p x && q x).flatMap g = (xs.filter p).flatMap g := by
  induction xs with
  | nil => rfl
  | cons x xs ih =>
    cases hp : p x with
    | false => simp [hp, ih]
    | true =>
      cases hq : q x with
      | false => simp [hp, hq, h x hq, ih]
      | true => simp [hp, hq, ih]

/-- The folders that are passed over hold nothing to collect. -/
theorem collected_eq (top : List (String × Entry)) :
    (folders o top).flatMap (collectedOf o) = collected o top := by
  have hskip : ∀ folder : String × Entry,
      (o.dbTables = [] || folder.1 ∈ o.dbTables.map DbTable.db) = false →
      collectedOf o folder = [] := by
    intro folder hfolder
    rw [collectedOf, List.filter_eq_nil_iff]
    intro f hf hcollected
    obtain ⟨name, -, hname⟩ := List.mem_map.mp hf
    have hselects : Selects o.dbTables folder.1 f.table := by
      have h := (of_decide_eq_true hcollected).2.2
      rwa [← hname] at h ⊢
    rw [Bool.or_eq_false_iff, decide_eq_false_iff_not, decide_eq_false_iff_not] at hfolder
    cases hselects with
    | inl h => exact hfolder.1 h
    | inr h =>
      cases h with
      | inl h => exact hfolder.2 (List.mem_map.mpr ⟨_, h, rfl⟩)
      | inr h => exact hfolder.2 (List.mem_map.mpr ⟨_, h, rfl⟩)
  calc (folders o top).flatMap (collectedOf o)
      = (top.filter fun e => !e.2.isFile).flatMap (collectedOf o) := flatMap_filter_and hskip top
    _ = collected o top := List.filter_flatMap.symm

/-- The import takes every collected file, each on its own, and nothing else. -/
theorem parseDirectory_sources (top : List (String × Entry)) :
    (parseDirectory loads o top).map Scan.sources = (collected o top).mapM (Found.load loads o) := by
  unfold parseDirectory
  rw [foldlM_mapM scanDb_sources, collected_eq]
  cases (collected o top).mapM (Found.load loads o) with
  | error e => rfl
  | ok sources => rfl

theorem parse_ne_duplicate (top : List (String × Entry)) (db table : String) :
    parseDirectory loads o top ≠ .error (.duplicate db table) := by
  intro h
  have hsources : (parseDirectory loads o top).map Scan.sources = _ := parseDirectory_sources top
  rw [h] at hsources
  obtain ⟨f, -, hf⟩ := mapM_eq_error hsources.symm
  exact load_ne_duplicate f db table hf

theorem parse_eq_ok {top : List (String × Entry)} {scan : Scan}
    (h : parseDirectory loads o top = .ok scan) :
    List.Forall₂ (fun f s => f.load loads o = .ok s) (collected o top) scan.sources := by
  have hsources : (parseDirectory loads o top).map Scan.sources = _ := parseDirectory_sources top
  rw [h] at hsources
  exact mapM_eq_ok.mp hsources.symm

theorem map_key_eq {fs : List Found} {sources : List Source}
    (h : List.Forall₂ (fun f s => f.load loads o = .ok s) fs sources) :
    sources.map Source.key = fs.map Found.key := by
  induction h with
  | nil => rfl
  | cons hload _ ih => rw [List.map_cons, List.map_cons, ih, (load_eq_ok hload).2]

theorem exists_source {fs : List Found} {sources : List Source}
    (h : List.Forall₂ (fun f s => f.load loads o = .ok s) fs sources) {f : Found} (hf : f ∈ fs) :
    ∃ s ∈ sources, f.load loads o = .ok s := by
  induction h with
  | nil => cases hf
  | cons hload _ ih =>
    cases List.mem_cons.mp hf with
    | inl hf => exact ⟨_, by simp, hf ▸ hload⟩
    | inr hf =>
      obtain ⟨s, hs, hload⟩ := ih hf
      exact ⟨s, by simp [hs], hload⟩

theorem selected_sublist (top : List (String × Entry)) :
    (selected o top).Sublist (collected o top) := by
  apply List.monotone_filter_right
  intro f hf
  exact decide_eq_true (of_decide_eq_true hf).1

/-! ### Every table once -/

/-- The call raises, or returns one source for each table, those of the selected files among them;
where two of these are for one table it raises the error for duplicates. -/
def NamesOnce (loads : String → Option Json) (o : Options) (top : List (String × Entry)) : Prop :=
  (∀ scan, parseDirectory loads o top = .ok scan →
    (scan.sources.map Source.key).Nodup ∧
      ∀ f ∈ selected o top, ∃ s ∈ scan.sources, s.path = f.path ∧ s.key = f.key ∧
        ∀ s' ∈ scan.sources, s'.key = f.key → s' = s) ∧
  (¬((selected o top).map Found.key).Nodup →
    ∃ db table, parseDirectory loads o top = .error (.duplicate db table))

theorem selected_nodup {top : List (String × Entry)} (h : NamesOnce loads o top) :
    ((selected o top).map Found.key).Nodup := by
  by_contra hdup
  obtain ⟨db, table, herror⟩ := h.2 hdup
  exact parse_ne_duplicate top db table herror

/-- Each table has one source when no two files for it are collected. The other case is that of
two such files with a directory for their metadata: one of the collected files must not load. -/
theorem namesOnce_iff {top : List (String × Entry)} :
    NamesOnce loads o top ↔
      ((collected o top).map Found.key).Nodup ∨
        ((selected o top).map Found.key).Nodup ∧
          ∃ f ∈ collected o top, ∃ e, f.load loads o = .error e := by
  constructor
  · intro h
    cases hparse : parseDirectory loads o top with
    | ok scan =>
      left
      rw [← map_key_eq (parse_eq_ok hparse)]
      exact (h.1 scan hparse).1
    | error e =>
      right
      have hsources : (parseDirectory loads o top).map Scan.sources = _ :=
        parseDirectory_sources top
      rw [hparse] at hsources
      obtain ⟨f, hf, hload⟩ := mapM_eq_error hsources.symm
      exact ⟨selected_nodup h, f, hf, e, hload⟩
  · intro h
    have hselected : ((selected o top).map Found.key).Nodup := by
      cases h with
      | inl h => exact h.sublist ((selected_sublist top).map _)
      | inr h => exact h.1
    refine ⟨fun scan hparse => ?_, fun hdup => absurd hselected hdup⟩
    have hloads := parse_eq_ok hparse
    have hnodup : (scan.sources.map Source.key).Nodup := by
      rw [map_key_eq hloads]
      cases h with
      | inl h => exact h
      | inr h =>
        obtain ⟨-, f, hf, e, herror⟩ := h
        obtain ⟨s, -, hok⟩ := exists_source hloads hf
        rw [herror] at hok
        cases hok
    refine ⟨hnodup, fun f hf => ?_⟩
    obtain ⟨s, hs, hload⟩ := exists_source hloads ((selected_sublist top).subset hf)
    obtain ⟨hpath, hkey⟩ := load_eq_ok hload
    exact ⟨s, hs, hpath, hkey,
      fun s' hs' hkey' => List.inj_on_of_nodup_map hnodup hs' hs (hkey'.trans hkey.symm)⟩

def twoFormats : List (String × Entry) :=
  [("shop", .dir [("users.json", .file (some "[]")), ("users.csv", .file (some "id")),
    ("users.info", .file (some "\x7b\x7d"))])]

theorem twoFormats_imported :
    ¬ NamesOnce (fun text => Json.loads text.toList) ⟨[], true, true⟩ twoFormats := by
  intro h
  exact absurd (selected_nodup h) (by decide)

end Sources
end RethinkDB.Import
