import RethinkDB.Import.Sources
import RethinkDB.Restore.Unzip

/-! The archive that `rethinkdb/_dump.py` makes of an export, and what a restore makes of the
archive. -/
namespace RethinkDB.Restore
open RethinkDB.Lib Prog Path Utils
open RethinkDB.Import (Entry Found Metadata SourceFile Source FileFormat parseInfoFile
  parseDirectory)

/-- A file one directory down. -/
structure Stored where
  db : String
  file : String
  text : String
  deriving Repr, DecidableEq

/-- An entry of the archive, with what is in the file. -/
structure Member where
  name : List Char
  text : String
  deriving Repr, DecidableEq

/-- `os.walk`, with the files of each directory joined to its path. -/
def walk (dir : Path) : Entry → List (Path × Option String)
  | .file _ => []
  | .dir entries =>
    (entries.filterMap fun e => match e.2 with
      | .file text => some (join dir e.1.toList, text)
      | .dir _ => none) ++
      entries.attach.flatMap fun e => walk (join dir e.1.1.toList) e.1.2
termination_by e => sizeOf e
decreasing_by
  have hmem := List.sizeOf_lt_of_mem e.2
  have hpair : sizeOf e.1.2 < sizeOf e.1 := by
    rcases e.1 with ⟨name, entry⟩
    simp only [Prod.mk.sizeOf_spec]
    omega
  simp only [Entry.dir.sizeOf_spec]
  omega

/-- `options.dump_name`, of the time. -/
def dumpName (stamp : Path) : Path := "rethinkdb_dump_".toList ++ stamp

/-- The loop that fills the archive, unless a file can not be read. -/
def zipDirectory (directory : Cwd) (dumpName : Path) (top : List (String × Entry)) :
    Option (List Member) :=
  (walk directory.path (.dir top)).mapM fun file => do
    return ⟨join dumpName (relpath directory file.1), ← file.2⟩

def archiveOf (members : List Member) : Archive where
  opening := .ok ()
  members := members.map fun m => ⟨m.name, true, .ok (), .ok ()⟩
  reading := .ok ()

/-- A directory of directories holds these files and no others. -/
structure Holds (top : List (String × Entry)) (files : Stored → Prop) : Prop where
  dirs : ∀ e ∈ top, ∃ entries, e.2 = .dir entries
  nodup : (top.map Prod.fst).Nodup
  inner : ∀ db entries, (db, Entry.dir entries) ∈ top → (entries.map Prod.fst).Nodup ∧
    ∀ e ∈ entries, ∃ text, e.2 = .file (some text)
  mem : ∀ db file text, (∃ entries, (db, Entry.dir entries) ∈ top ∧
    (file, Entry.file (some text)) ∈ entries) ↔ files ⟨db, file, text⟩

/-- What a name in a RethinkDB server is made of. -/
def Identifier (s : String) : Prop :=
  s ≠ "" ∧ ∀ c ∈ s.toList, c.isAlphanum = true ∨ c = '_' ∨ c = '-'

structure Table where
  db : String
  table : String
  json : String
  info : String
  deriving Repr, DecidableEq

namespace Table

def key (t : Table) : String × String := (t.db, t.table)

def files (t : Table) : List Stored :=
  [⟨t.db, t.table ++ ".json", t.json⟩, ⟨t.db, t.table ++ ".info", t.info⟩]

end Table

/-! ### The archive -/

section Archive
variable {directory cwd : Cwd} {top : List (String × Entry)} {files : Stored → Prop}

theorem proper_of_chars {s : Path} (hne : s ≠ []) (hs : ∀ c ∈ s, c ≠ '.' ∧ c ≠ '/') : Proper s where
  ne_nil := hne
  ne_curdir := by
    rintro rfl
    exact (hs '.' (by simp)).1 rfl
  ne_pardir := by
    rintro rfl
    exact (hs '.' (by simp)).1 rfl
  no_sep := fun h => (hs '/' h).2 rfl

theorem Identifier.chars {s : String} (h : Identifier s) : ∀ c ∈ s.toList, c ≠ '.' ∧ c ≠ '/' := by
  intro c hc
  rcases h.2 c hc with halnum | rfl | rfl
  · constructor
    · rintro rfl
      exact absurd halnum (by decide)
    · rintro rfl
      exact absurd halnum (by decide)
  · decide
  · decide

theorem Identifier.toList_ne_nil {s : String} (h : Identifier s) : s.toList ≠ [] := by
  intro hnil
  exact h.1 (String.toList_eq_nil_iff.mp hnil)

theorem Identifier.proper {s : String} (h : Identifier s) : Proper s.toList :=
  proper_of_chars h.toList_ne_nil h.chars

/-- The name of a file of an export, split. -/
structure Named (f : Stored) (table : String) (ext : Path) : Prop where
  dbName : Identifier f.db
  tableName : Identifier table
  file : f.file.toList = table.toList ++ '.' :: ext
  extension : ext ∈ ["json".toList, "info".toList]

theorem any_ne_dot {table : String} (h : Identifier table) (dir : Path) :
    ((dir ++ table.toList).rtakeWhile (· ≠ '/')).any (· ≠ '.') = true := by
  obtain ⟨init, c, hconcat⟩ := (List.eq_nil_or_concat table.toList).resolve_left h.toList_ne_nil
  have hc := h.chars c (by rw [hconcat]; simp)
  have htake : (dir ++ init ++ [c]).rtakeWhile (· ≠ '/') =
      (dir ++ init).rtakeWhile (· ≠ '/') ++ [c] :=
        List.rtakeWhile_concat_pos _ _ c (by simpa using hc.2)
  rw [hconcat, List.concat_eq_append, ← List.append_assoc, htake]
  simp [hc.1]

theorem extension_chars : ∀ ext ∈ ["json".toList, "info".toList], ∀ c ∈ ext, c ≠ '.' ∧ c ≠ '/' := by
  simp

namespace Named
variable {f : Stored} {table : String} {ext : Path}

theorem ext_chars (h : Named f table ext) : ∀ c ∈ ext, c ≠ '.' ∧ c ≠ '/' :=
  extension_chars ext h.extension

theorem splitext_file (h : Named f table ext) (dir : Path) :
    splitext (dir ++ f.file.toList) = (dir ++ table.toList, '.' :: ext) := by
  rw [h.file, ← List.append_assoc]
  exact splitext_dot h.ext_chars (any_ne_dot h.tableName dir)

theorem known (h : Named f table ext) : '.' :: ext ∈ extensions := by
  have hall : ∀ ext ∈ ["json".toList, "info".toList], '.' :: ext ∈ extensions := by decide
  exact hall ext h.extension

theorem proper (h : Named f table ext) : Proper f.file.toList where
  ne_nil := by
    rw [h.file]
    simp
  ne_curdir := by
    rw [h.file]
    obtain ⟨c, cs, hcs⟩ := List.exists_cons_of_ne_nil h.tableName.toList_ne_nil
    rw [hcs]
    simp
  ne_pardir := by
    rw [h.file]
    intro heq
    obtain ⟨c, cs, hcs⟩ := List.exists_cons_of_ne_nil h.tableName.toList_ne_nil
    have hc := (h.tableName.chars c (by rw [hcs]; simp)).1
    rw [hcs, List.cons_append, List.cons.injEq] at heq
    exact hc heq.1
  no_sep := by
    rw [h.file]
    intro hsep
    rcases List.mem_append.mp hsep with hsep | hsep
    · exact (h.tableName.chars '/' hsep).2 rfl
    · rcases List.mem_cons.mp hsep with hsep | hsep
      · cases hsep
      · exact (h.ext_chars '/' hsep).2 rfl

end Named

/-- Where a file is in the archive. -/
def nameIn (dumpName : Path) (f : Stored) : List Char :=
  unsplit [dumpName, f.db.toList, f.file.toList]

def memberOf (dumpName : Path) (f : Stored) : Member := ⟨nameIn dumpName f, f.text⟩

theorem dumpName_eq (stamp : Path) : dumpName stamp = 'r' :: ("ethinkdb_dump_".toList ++ stamp) :=
  rfl

theorem proper_dumpName {stamp : Path} (hstamp : '/' ∉ stamp) : Proper (dumpName stamp) where
  ne_nil := by
    rw [dumpName_eq]
    exact List.cons_ne_nil _ _
  ne_curdir := by
    rw [dumpName_eq]
    intro h
    exact absurd (List.cons.inj h).1 (by decide)
  ne_pardir := by
    rw [dumpName_eq]
    intro h
    exact absurd (List.cons.inj h).1 (by decide)
  no_sep := by
    intro h
    rcases List.mem_append.mp h with h | h
    · exact absurd h (by decide)
    · exact hstamp h

theorem strip_nameIn {stamp : Path} {f : Stored} {table : String} {ext : Path}
    (h : Named f table ext) :
    (Str.strip (nameIn (dumpName stamp) f)).dropWhile (· = '/') = nameIn (dumpName stamp) f := by
  obtain ⟨init, c, hext, hspace⟩ : ∃ init c, ext = init ++ [c] ∧ Str.isSpace c = false := by
    have hextension := h.extension
    simp only [List.mem_cons, List.not_mem_nil, or_false] at hextension
    rcases hextension with rfl | rfl
    · exact ⟨"jso".toList, 'n', by decide, by decide⟩
    · exact ⟨"inf".toList, 'o', by decide, by decide⟩
  have hlast : nameIn (dumpName stamp) f =
      (dumpName stamp ++ '/' :: f.db.toList ++ '/' :: (table.toList ++ '.' :: init)) ++ [c] := by
    rw [nameIn, unsplit_three, h.file, hext]
    simp
  have hhead : ∃ rest, nameIn (dumpName stamp) f = 'r' :: rest := by
    rw [nameIn, unsplit_three, dumpName_eq]
    exact ⟨_, rfl⟩
  have hstrip : Str.strip (nameIn (dumpName stamp) f) = nameIn (dumpName stamp) f := by
    obtain ⟨rest, hrest⟩ := hhead
    have hleft : (nameIn (dumpName stamp) f).dropWhile Str.isSpace = nameIn (dumpName stamp) f := by
      rw [hrest]
      exact List.dropWhile_cons_of_neg (by decide)
    rw [Str.strip, hleft, hlast]
    exact List.rdropWhile_concat_neg _ _ c (by simp [hspace])
  obtain ⟨rest, hrest⟩ := hhead
  rw [hstrip, hrest]
  exact List.dropWhile_cons_of_neg (by decide)

/-- What the loop makes of an entry. -/
theorem unzipMember_named (cwd : Cwd) (tempDir : Path) (dbTables : List DbTable) {stamp : Path}
    (hstamp : '/' ∉ stamp) {f : Stored} {table : String} {ext : Path}
    (h : Named f table ext) {s : State}
    (htop : s.topLevel = [] ∨ s.topLevel = dumpName stamp) :
    unzipMember cwd tempDir dbTables ⟨nameIn (dumpName stamp) f, true, .ok (), .ok ()⟩ s =
      (.ok (), if Selects dbTables f.db table then { s with
        topLevel := dumpName stamp
        filesFound := true
        opened := s.opened ++
          [⟨nameIn (dumpName stamp) f, join (join tempDir f.db.toList) f.file.toList⟩] }
      else { s with topLevel := dumpName stamp }) := by
  have hproper : ∀ c ∈ [dumpName stamp, f.db.toList, f.file.toList], Proper c := by
    intro c hc
    simp only [List.mem_cons, List.not_mem_nil, or_false] at hc
    rcases hc with rfl | rfl | rfl
    · exact proper_dumpName hstamp
    · exact h.dbName.proper
    · exact h.proper
  have hrelpath : relpathOf cwd (nameIn (dumpName stamp) f) = nameIn (dumpName stamp) f := by
    rw [relpathOf, strip_nameIn h]
    exact relpath_abspath cwd hproper (List.cons_ne_nil _ _)
  have hup : ¬ ['.', '.'] <+: nameIn (dumpName stamp) f := by
    rw [nameIn, unsplit_three, dumpName_eq]
    intro hprefix
    exact absurd (List.cons_prefix_cons.mp hprefix).1 (by decide)
  have hext : splitext (nameIn (dumpName stamp) f) =
      (dumpName stamp ++ '/' :: f.db.toList ++ '/' :: table.toList, '.' :: ext) := by
    have hcut : nameIn (dumpName stamp) f =
        (dumpName stamp ++ '/' :: f.db.toList ++ ['/']) ++ f.file.toList := by
      rw [nameIn, unsplit_three]
      simp
    rw [hcut, h.splitext_file]
    simp
  have htable : splitext f.file.toList = (table.toList, '.' :: ext) := h.splitext_file []
  have hsplit : (nameIn (dumpName stamp) f).splitOn '/' =
    [dumpName stamp, f.db.toList, f.file.toList] :=
    splitOn_unsplit hproper (List.cons_ne_nil _ _)
  apply eq_of_wp
  unfold unzipMember
  dsimp only
  rw [Bool.not_true, if_neg Bool.false_ne_true, hrelpath, if_neg hup, hext,
    if_neg (not_not.mpr h.known), hsplit]
  dsimp only
  have hcheck : checkTop (dumpName stamp) s = (.ok (), { s with topLevel := dumpName stamp }) := by
    apply eq_of_wp
    unfold checkTop
    rw [wp_bind, wp_read, bindPost_ok, wp_ite]
    constructor
    · intro _
      rw [wp_modify]
      exact ⟨rfl, rfl⟩
    · intro hne
      have hsame := htop.resolve_left hne
      rw [wp, raiseIf_neg (not_not.mpr hsame.symm), ← hsame]
      exact ⟨rfl, rfl⟩
  rw [wp_bind_of_eq hcheck, htable, String.ofList_toList, String.ofList_toList]
  by_cases hselects : Selects dbTables f.db table
  · rw [if_pos hselects, if_pos hselects]
    unfold writeOut
    rw [wp_bind, wp_modify, bindPost_ok, wp_bind, wp_ofExcept_ok, bindPost_ok, wp_bind, wp_modify,
      bindPost_ok, wp_ofExcept_ok]
    exact ⟨rfl, rfl⟩
  · rw [if_neg hselects, if_neg hselects, wp_pure]
    exact ⟨rfl, rfl⟩

/-- The files of a directory of directories. -/
def storedIn (folder : String × Entry) : List Stored :=
  folder.2.entries.filterMap fun e => match e.2 with
    | .file (some text) => some ⟨folder.1, e.1, text⟩
    | _ => none

def stored (top : List (String × Entry)) : List Stored := top.flatMap storedIn

theorem mem_stored (hholds : Holds top files) (f : Stored) : f ∈ stored top ↔ files f := by
  rw [← hholds.mem f.db f.file f.text, stored, List.mem_flatMap]
  constructor
  · rintro ⟨folder, hfolder, hf⟩
    obtain ⟨entries, hentries⟩ := hholds.dirs folder hfolder
    obtain ⟨e, he, hsome⟩ := List.mem_filterMap.mp hf
    rw [hentries] at he
    split at hsome
    · rename_i text htext
      obtain rfl := Option.some.inj hsome
      refine ⟨entries, ?_, ?_⟩
      · rw [← hentries]
        exact hfolder
      · rw [← htext]
        exact he
    · cases hsome
  · rintro ⟨entries, hentries, hfile⟩
    exact ⟨(f.db, .dir entries), hentries, List.mem_filterMap.mpr
      ⟨(f.file, .file (some f.text)), hfile, rfl⟩⟩

theorem walk_file (dir : Path) (text : Option String) : walk dir (.file text) = [] := by
  rw [walk]

/-- A directory of files. -/
theorem walk_folder (dir : Path) (db : String) {entries : List (String × Entry)}
    (hentries : ∀ e ∈ entries, ∃ text, e.2 = .file (some text)) :
    walk dir (.dir entries) = (storedIn (db, .dir entries)).map fun f =>
      (join dir f.file.toList, some f.text) := by
  have hdeeper : (entries.attach.flatMap fun e => walk (join dir e.1.1.toList) e.1.2) = [] := by
    rw [List.flatMap_eq_nil_iff]
    intro e _
    obtain ⟨text, htext⟩ := hentries e.1 e.2
    rw [htext, walk_file]
  rw [walk, hdeeper, List.append_nil, storedIn, List.map_filterMap]
  refine List.filterMap_congr fun e he => ?_
  obtain ⟨text, htext⟩ := hentries e he
  rw [htext]
  rfl

theorem walk_top (dir : Path) (hholds : Holds top files) :
    walk dir (.dir top) =
      (stored top).map fun f => (join (join dir f.db.toList) f.file.toList, some f.text) := by
  have hnone : (top.filterMap fun e => match e.2 with
      | .file text => some (join dir e.1.toList, text)
      | .dir _ => none) = [] := by
    rw [List.filterMap_eq_nil_iff]
    intro e he
    obtain ⟨entries, hentries⟩ := hholds.dirs e he
    rw [hentries]
  have hattach : (top.attach.flatMap fun e => walk (join dir e.1.1.toList) e.1.2) =
      top.flatMap fun e => walk (join dir e.1.toList) e.2 := by
    conv_rhs => rw [← List.attach_map_subtype_val top, List.flatMap_map]
  rw [walk, hnone, List.nil_append, hattach, stored, List.map_flatMap]
  refine List.flatMap_congr fun e he => ?_
  obtain ⟨entries, hentries⟩ := hholds.dirs e he
  have hmem : (e.1, Entry.dir entries) ∈ top := by
    rw [← hentries]
    exact he
  have hdb : ∀ f ∈ storedIn e, f.db = e.1 := by
    intro f hf
    obtain ⟨x, -, hx⟩ := List.mem_filterMap.mp hf
    split at hx
    · rw [← Option.some.inj hx]
    · cases hx
  have hfolder := walk_folder (join dir e.1.toList) e.1 (hholds.inner e.1 entries hmem).2
  rw [← hentries] at hfolder
  rw [hfolder]
  refine List.map_congr_left fun f hf => ?_
  rw [hdb f hf]

/-- The archive has a member for every file. -/
theorem zipDirectory_holds {stamp : Path} (hstamp : '/' ∉ stamp) (hholds : Holds top files)
    (hnamed : ∀ f, files f → ∃ table ext, Named f table ext) :
    zipDirectory directory (dumpName stamp) top =
      some ((stored top).map (memberOf (dumpName stamp))) := by
  have hrelpath : ∀ f ∈ stored top, join (dumpName stamp)
      (relpath directory (join (join directory.path f.db.toList) f.file.toList)) =
        nameIn (dumpName stamp) f := by
    intro f hf
    obtain ⟨table, ext, h⟩ := hnamed f ((mem_stored hholds f).mp hf)
    have hproper : ∀ c ∈ [f.db.toList, f.file.toList], Proper c := by
      intro c hc
      simp only [List.mem_cons, List.not_mem_nil, or_false] at hc
      rcases hc with rfl | rfl
      · exact h.dbName.proper
      · exact h.proper
    have hfull : join (join directory.path f.db.toList) f.file.toList =
        asDir directory.path ++ unsplit [f.db.toList, f.file.toList] := by
      rw [join_of_proper h.dbName.proper, join_of_proper h.proper, asDir_append h.dbName.proper]
      simp [unsplit, List.intercalate_cons_cons]
    have hdir : asDir (dumpName stamp) = dumpName stamp ++ ['/'] := by
      have hcut : asDir ([] ++ dumpName stamp) = [] ++ dumpName stamp ++ ['/'] :=
        asDir_append (proper_dumpName hstamp)
      simpa using hcut
    rw [hfull, relpath_below directory hproper (List.cons_ne_nil _ _), join,
      if_neg (head_unsplit hproper (List.cons_ne_nil _ _)), hdir, nameIn, unsplit_three]
    simp [unsplit, List.intercalate_cons_cons]
  unfold zipDirectory
  rw [walk_top directory.path hholds]
  have hall : ∀ fs : List Stored, (∀ f ∈ fs, f ∈ stored top) →
      (fs.map fun f => (join (join directory.path f.db.toList) f.file.toList, some f.text)).mapM
        (fun file => do return (⟨join (dumpName stamp) (relpath directory file.1),
          ← file.2⟩ : Member)) =
        some (fs.map (memberOf (dumpName stamp))) := by
    intro fs hfs
    induction fs with
    | nil => rfl
    | cons f fs ih =>
      rw [List.forall_mem_cons] at hfs
      rw [List.map_cons, List.mapM_cons, ih hfs.2, hrelpath f hfs.1]
      rfl
  exact hall _ fun f hf => hf

section Unzip
variable {tempDir : Path} {dbTables : List DbTable} {stamp : Path}

def Chosen (dbTables : List DbTable) (f : Stored) : Prop :=
  Selects dbTables f.db (.ofList (splitext f.file.toList).1)

instance (f : Stored) : Decidable (Chosen dbTables f) := inferInstanceAs (Decidable (Selects _ _ _))

def openedFor (tempDir stamp : Path) (f : Stored) : Opened :=
  ⟨nameIn (dumpName stamp) f, join (join tempDir f.db.toList) f.file.toList⟩

variable (tempDir dbTables) in
/-- The induction is on the entries. -/
theorem forEach_named (cwd : Cwd) (hstamp : '/' ∉ stamp) {fs : List Stored}
    (hfs : ∀ f ∈ fs, ∃ table ext, Named f table ext) {s : State}
    (htop : s.topLevel = [] ∨ s.topLevel = dumpName stamp) :
    ∃ s', forEach (unzipMember cwd tempDir dbTables)
        (fs.map fun f => ⟨nameIn (dumpName stamp) f, true, .ok (), .ok ()⟩) s = (.ok (), s') ∧
      s'.opened = s.opened ++ (fs.filter fun f => Chosen dbTables f).map (openedFor tempDir stamp) ∧
      s'.filesIgnored = s.filesIgnored ∧
      s'.filesFound = (s.filesFound || fs.any fun f => Chosen dbTables f) := by
  induction fs generalizing s with
  | nil => exact ⟨s, rfl, by simp, rfl, by simp⟩
  | cons f fs ih =>
    rw [List.forall_mem_cons] at hfs
    obtain ⟨⟨table, ext, hnamed⟩, hfs⟩ := hfs
    have htable : Chosen dbTables f ↔ Selects dbTables f.db table := by
      have hsplit : splitext f.file.toList = (table.toList, '.' :: ext) := hnamed.splitext_file []
      rw [Chosen, hsplit, String.ofList_toList]
    have hstep := unzipMember_named cwd tempDir dbTables hstamp hnamed htop
    by_cases hselects : Selects dbTables f.db table
    · rw [if_pos hselects] at hstep
      obtain ⟨s', hrun, hopened, hignored, hfound⟩ := ih (s := { s with
        topLevel := dumpName stamp
        filesFound := true
        opened := s.opened ++ [openedFor tempDir stamp f] }) hfs (.inr rfl)
      refine ⟨s', ?_, ?_, hignored, ?_⟩
      · rw [List.map_cons, forEach]
        exact (bind_of_ok hstep _).trans hrun
      · rw [hopened, List.filter_cons_of_pos (by simpa using htable.mpr hselects)]
        simp
      · rw [hfound]
        simp [htable.mpr hselects]
    · rw [if_neg hselects] at hstep
      obtain ⟨s', hrun, hopened, hignored, hfound⟩ :=
        ih (s := { s with topLevel := dumpName stamp }) hfs (.inr rfl)
      have hnot : ¬ Chosen dbTables f := fun h => hselects (htable.mp h)
      refine ⟨s', ?_, ?_, hignored, ?_⟩
      · rw [List.map_cons, forEach]
        exact (bind_of_ok hstep _).trans hrun
      · rw [hopened, List.filter_cons_of_neg (by simpa using hnot)]
      · rw [hfound]
        simp [hnot]

variable (tempDir) in
/-- The archive of a dump is unpacked whole, but for what the selectors leave out. -/
theorem doUnzip_named (cwd : Cwd) (hstamp : '/' ∉ stamp) {fs : List Stored}
    (hfs : ∀ f ∈ fs, ∃ table ext, Named f table ext) (hsome : ∃ f ∈ fs, Chosen dbTables f) :
    ∃ s, doUnzip cwd tempDir dbTables (archiveOf (fs.map (memberOf (dumpName stamp)))) .start =
      (.ok [], s) ∧
      s.opened = (fs.filter fun f => Chosen dbTables f).map (openedFor tempDir stamp) := by
  obtain ⟨s, hrun, hopened, hignored, hfound⟩ := forEach_named tempDir dbTables cwd hstamp
    hfs (s := .start) (.inl rfl)
  have hany : s.filesFound = true := by
    rw [hfound, Bool.or_eq_true, List.any_eq_true]
    obtain ⟨f, hf, hchosen⟩ := hsome
    exact .inr ⟨f, hf, by simpa using hchosen⟩
  refine ⟨s, eq_of_wp ?_, by simpa [State.start] using hopened⟩
  have hmembers : (archiveOf (fs.map (memberOf (dumpName stamp)))).members =
      fs.map fun f => ⟨nameIn (dumpName stamp) f, true, .ok (), .ok ()⟩ := List.map_map ..
  unfold doUnzip
  rw [archiveOf, wp_bind, wp_ofExcept_ok, bindPost_ok, ← archiveOf, hmembers, wp_bind_of_eq hrun]
  rw [wp_bind, archiveOf, wp_ofExcept_ok, bindPost_ok, wp_bind, wp_read, bindPost_ok,
    wp_raiseIf_bind_not (by simp [hany]), wp_read]
  exact ⟨by rw [hignored]; rfl, rfl⟩

end Unzip

/-! ### The directory that is unpacked -/

/-- What a restore finds below its temporary directory. -/
def Extracted (tempDir : Path) (members : List Member) (opened : List Opened) (f : Stored) : Prop :=
  Proper f.db.toList ∧ Proper f.file.toList ∧ ∃ o ∈ opened, ∃ m ∈ members, m.name = o.name ∧
    m.text = f.text ∧ o.path = asDir tempDir ++ unsplit [f.db.toList, f.file.toList]

theorem unsplit_pair_injective {db file db' file' : String} (hdb : Proper db.toList)
    (hfile : Proper file.toList) (hdb' : Proper db'.toList) (hfile' : Proper file'.toList)
    (h : unsplit [db.toList, file.toList] = unsplit [db'.toList, file'.toList]) :
    db = db' ∧ file = file' := by
  have hsplit := congrArg (List.splitOn '/') h
  rw [splitOn_unsplit (by simp [hdb, hfile]) (List.cons_ne_nil _ _),
    splitOn_unsplit (by simp [hdb', hfile']) (List.cons_ne_nil _ _)] at hsplit
  simp only [List.cons.injEq, and_true] at hsplit
  exact ⟨String.toList_inj.mp hsplit.1, String.toList_inj.mp hsplit.2⟩

theorem Holds.functional (hholds : Holds top files) {db file text text' : String}
    (h : files ⟨db, file, text⟩) (h' : files ⟨db, file, text'⟩) : text = text' := by
  obtain ⟨entries, hdir, hfile⟩ := (hholds.mem db file text).mpr h
  obtain ⟨entries', hdir', hfile'⟩ := (hholds.mem db file text').mpr h'
  have hsame := List.inj_on_of_nodup_map hholds.nodup hdir hdir' rfl
  obtain rfl : entries = entries' := by
    cases hsame
    rfl
  have htext := List.inj_on_of_nodup_map (hholds.inner db entries hdir).1 hfile hfile' rfl
  cases htext
  rfl

/-- These are the files of the export that are chosen. -/
theorem extracted_iff (stamp tempDir : Path) (dbTables : List DbTable)
    (hholds : Holds top files) (hnamed : ∀ f, files f → ∃ table ext, Named f table ext)
    (f : Stored) :
    Extracted tempDir ((stored top).map (memberOf (dumpName stamp)))
        (((stored top).filter fun f => Chosen dbTables f).map (openedFor tempDir stamp)) f ↔
      files f ∧ Chosen dbTables f := by
  have hproper : ∀ f, files f → Proper f.db.toList ∧ Proper f.file.toList := by
    intro f hf
    obtain ⟨table, ext, h⟩ := hnamed f hf
    exact ⟨h.dbName.proper, h.proper⟩
  have hpath : ∀ f, files f → join (join tempDir f.db.toList) f.file.toList =
      asDir tempDir ++ unsplit [f.db.toList, f.file.toList] := by
    intro f hf
    obtain ⟨hdb, hfile⟩ := hproper f hf
    rw [join_of_proper hdb, join_of_proper hfile, asDir_append hdb]
    simp [unsplit, List.intercalate_cons_cons]
  constructor
  · rintro ⟨hdb, hfile, o, ho, m, hm, hname, htext, hplace⟩
    obtain ⟨g, hg, rfl⟩ := List.mem_map.mp ho
    obtain ⟨g', hg', rfl⟩ := List.mem_map.mp hm
    obtain ⟨hg, hchosen⟩ := List.mem_filter.mp hg
    have hfiles := (mem_stored hholds g).mp hg
    have hfiles' := (mem_stored hholds g').mp hg'
    have hplace' : asDir tempDir ++ unsplit [g.db.toList, g.file.toList] =
        asDir tempDir ++ unsplit [f.db.toList, f.file.toList] := (hpath g hfiles).symm.trans hplace
    obtain ⟨hdbs, hfs⟩ := unsplit_pair_injective (hproper g hfiles).1 (hproper g hfiles).2 hdb hfile
      (List.append_cancel_left hplace')
    have hname' : unsplit [g'.db.toList, g'.file.toList] =
        unsplit [g.db.toList, g.file.toList] := by
      have hcut : dumpName stamp ++ '/' :: unsplit [g'.db.toList, g'.file.toList] =
          dumpName stamp ++ '/' :: unsplit [g.db.toList, g.file.toList] := by
        have hnames : nameIn (dumpName stamp) g' = nameIn (dumpName stamp) g := hname
        simpa [nameIn, unsplit, List.intercalate_cons_cons] using hnames
      exact (List.cons.inj (List.append_cancel_left hcut)).2
    obtain ⟨hdbs', hfs'⟩ := unsplit_pair_injective (hproper g' hfiles').1 (hproper g' hfiles').2
      (hproper g hfiles).1 (hproper g hfiles).2 hname'
    obtain ⟨db, file, text⟩ := f
    obtain ⟨db₁, file₁, text₁⟩ := g
    obtain ⟨db₂, file₂, text₂⟩ := g'
    dsimp only at hdbs hfs hdbs' hfs'
    subst hdbs hfs hdbs' hfs'
    have hsame := hholds.functional hfiles' hfiles
    subst hsame
    obtain rfl : text₂ = text := htext
    exact ⟨hfiles, of_decide_eq_true hchosen⟩
  · rintro ⟨hf, hchosen⟩
    have hmem := (mem_stored hholds f).mpr hf
    obtain ⟨hdb, hfile⟩ := hproper f hf
    refine ⟨hdb, hfile, openedFor tempDir stamp f, ?_, memberOf (dumpName stamp) f, ?_, rfl, rfl,
      hpath f hf⟩
    · exact List.mem_map_of_mem (List.mem_filter.mpr ⟨hmem, decide_eq_true hchosen⟩)
    · exact List.mem_map_of_mem hmem

end Archive

/-! ### The sources of a restore -/

section Sources
variable {o : RethinkDB.Import.Options} {loads : String → Option Json} {tables : List Table}
  {top : List (String × Entry)} {metadata : Table → Metadata}

def FilesOf (tables : List Table) (f : Stored) : Prop := ∃ t ∈ tables, f ∈ t.files

def sourceOf (metadata : Table → Metadata) (t : Table) : Source :=
  ⟨(t.db, t.table ++ ".json"), .json, .ofMetadata t.db t.table (metadata t)⟩

/-- The tables have names of their own, their data are not empty and their metadata can be read. -/
structure Exported (loads : String → Option Json) (o : RethinkDB.Import.Options)
    (tables : List Table)
    (metadata : Table → Metadata) : Prop where
  names : ∀ t ∈ tables, Identifier t.db ∧ Identifier t.table
  keys : (tables.map Table.key).Nodup
  json : ∀ t ∈ tables, t.json ≠ ""
  info : ∀ t ∈ tables, parseInfoFile loads o.indexes t.info = some (metadata t)
  hooks : ∀ t ∈ tables, (metadata t).writeHook.truthy → o.hasWriteHooks = true

theorem named_of_files (h : ∀ t ∈ tables, Identifier t.db ∧ Identifier t.table) (f : Stored)
    (hf : FilesOf tables f) : ∃ table ext, Named f table ext := by
  obtain ⟨t, ht, hfile⟩ := hf
  obtain ⟨hdb, htable⟩ := h t ht
  simp only [Table.files, List.mem_cons, List.not_mem_nil, or_false] at hfile
  rcases hfile with rfl | rfl
  · exact ⟨t.table, "json".toList, hdb, htable, by simp [String.toList_append], by simp⟩
  · exact ⟨t.table, "info".toList, hdb, htable, by simp [String.toList_append], by simp⟩

theorem lookup_of_mem {α : Type} {key : String} {value : α} {items : List (String × α)}
    (hnodup : (items.map Prod.fst).Nodup) (h : (key, value) ∈ items) :
    items.lookup key = some value := by
  induction items with
  | nil => cases h
  | cons item items ih =>
    rw [List.map_cons, List.nodup_cons] at hnodup
    rcases List.mem_cons.mp h with rfl | h
    · exact List.lookup_cons_self
    · have hne : key ≠ item.1 := by
        intro heq
        rw [heq] at h
        exact hnodup.1 (List.mem_map.mpr ⟨_, h, rfl⟩)
      have hkey : (key == item.1) = false := by simpa using hne
      rw [List.lookup_cons, hkey]
      exact ih hnodup.2 h

theorem tableOf_json {table : String} (h : Identifier table) :
    RethinkDB.Import.tableOf (table ++ ".json") = table ∧
      RethinkDB.Import.extOf (table ++ ".json") = ".json" := by
  have hsplit : splitext (table ++ ".json").toList = (table.toList, '.' :: "json".toList) := by
    rw [String.toList_append]
    exact splitext_dot (extension_chars "json".toList (by simp)) (any_ne_dot h [])
  have hbase : basename table.toList = table.toList := by
    rw [basename, List.rtakeWhile_eq_self_iff]
    intro c hc
    simpa using (h.chars c hc).2
  constructor
  · rw [RethinkDB.Import.tableOf, hsplit, hbase, String.ofList_toList]
  · rw [RethinkDB.Import.extOf, hsplit]
    rfl

theorem chosen_iff {dbTables : List DbTable} (hnames : ∀ t ∈ tables,
    Identifier t.db ∧ Identifier t.table)
    {t : Table} (ht : t ∈ tables) {f : Stored} (hf : f ∈ t.files) :
    Chosen dbTables f ↔ Selects dbTables t.db t.table := by
  obtain ⟨hdb, htable⟩ := hnames t ht
  simp only [Table.files, List.mem_cons, List.not_mem_nil, or_false] at hf
  rcases hf with rfl | rfl
  · have hsplit : splitext (t.table ++ ".json").toList =
        (t.table.toList, '.' :: "json".toList) := by
      rw [String.toList_append]
      exact splitext_dot (extension_chars "json".toList (by simp)) (any_ne_dot htable [])
    rw [Chosen, hsplit, String.ofList_toList]
  · have hsplit : splitext (t.table ++ ".info").toList =
        (t.table.toList, '.' :: "info".toList) := by
      rw [String.toList_append]
      exact splitext_dot (extension_chars "info".toList (by simp)) (any_ne_dot htable [])
    rw [Chosen, hsplit, String.ofList_toList]

/-- What is collected for a table, and what it loads as. -/
theorem collected_table (hexported : Exported loads o tables metadata)
    (hholds : Holds top fun f => FilesOf tables f ∧ Chosen o.dbTables f) {t : Table}
    (ht : t ∈ tables)
    (hselects : Selects o.dbTables t.db t.table) {entries : List (String × Entry)}
    (hdir : (t.db, Entry.dir entries) ∈ top) :
    (⟨t.db, t.table ++ ".json", entries⟩ : Found) ∈ RethinkDB.Import.collected o top ∧
      (⟨t.db, t.table ++ ".json", entries⟩ : Found).load loads o = .ok (sourceOf metadata t) := by
  obtain ⟨-, htable⟩ := hexported.names t ht
  obtain ⟨htableOf, hextOf⟩ := tableOf_json htable
  have hfiles : ∀ f ∈ t.files, (f.file, Entry.file (some f.text)) ∈ entries := by
    intro f hf
    have hdb : f.db = t.db := by
      simp only [Table.files, List.mem_cons, List.not_mem_nil, or_false] at hf
      rcases hf with rfl | rfl <;> rfl
    obtain ⟨entries', hdir', hfile⟩ := (hholds.mem f.db f.file f.text).mpr
      ⟨⟨t, ht, hf⟩, (chosen_iff hexported.names ht hf).mpr hselects⟩
    rw [hdb] at hdir'
    have hsame := List.inj_on_of_nodup_map hholds.nodup hdir hdir' rfl
    obtain rfl : entries = entries' := by
      cases hsame
      rfl
    exact hfile
  have hnodup := (hholds.inner t.db entries hdir).1
  have hjson := hfiles ⟨t.db, t.table ++ ".json", t.json⟩ (by simp [Table.files])
  have hinfo : entries.lookup (RethinkDB.Import.infoName t.table) = some (.file (some t.info)) :=
    lookup_of_mem hnodup (hfiles ⟨t.db, t.table ++ ".info", t.info⟩ (by simp [Table.files]))
  constructor
  · refine List.mem_filter.mpr ⟨List.mem_flatMap.mpr ⟨(t.db, .dir entries), ?_, ?_⟩, ?_⟩
    · exact List.mem_filter.mpr ⟨hdir, rfl⟩
    · refine List.mem_map.mpr ⟨t.table ++ ".json", ?_, rfl⟩
      exact List.mem_map.mpr ⟨_, List.mem_filter.mpr ⟨hjson, rfl⟩, rfl⟩
    · rw [decide_eq_true_eq]
      refine ⟨?_, ?_, ?_⟩
      · rw [hextOf]
        simp
      · rw [Found.table, htableOf, hinfo]
        rfl
      · rw [Found.table, htableOf]
        exact hselects
  · have hload : RethinkDB.Import.loadInfo loads o t.db t.table entries = .ok (metadata t) := by
      rw [RethinkDB.Import.loadInfo, hinfo]
      dsimp only
      rw [Option.bind_some, hexported.info t ht]
    have hhooks : ¬ ((metadata t).writeHook.truthy ∧ ¬ o.hasWriteHooks) := by
      rintro ⟨htruthy, hnot⟩
      exact hnot (hexported.hooks t ht htruthy)
    unfold Found.load RethinkDB.Import.loadSource
    dsimp only
    rw [htableOf, hload]
    change (if _ then _ else _) = _
    rw [if_neg hhooks, hextOf, if_pos rfl, RethinkDB.Import.openSource, lookup_of_mem hnodup hjson]
    dsimp only
    rw [if_neg (hexported.json t ht)]
    rfl

theorem extOf_info {table : String} (h : Identifier table) :
    RethinkDB.Import.extOf (table ++ ".info") = ".info" := by
  have hsplit : splitext (table ++ ".info").toList = (table.toList, '.' :: "info".toList) := by
    rw [String.toList_append]
    exact splitext_dot (extension_chars "info".toList (by simp)) (any_ne_dot h [])
  rw [RethinkDB.Import.extOf, hsplit]
  rfl

/-- Nothing else is collected. -/
theorem collected_inv (hexported : Exported loads o tables metadata)
    (hholds : Holds top fun f => FilesOf tables f ∧ Chosen o.dbTables f) {f : Found}
    (hf : f ∈ RethinkDB.Import.collected o top) :
    ∃ t ∈ tables, Selects o.dbTables t.db t.table ∧ (t.db, Entry.dir f.entries) ∈ top ∧
      f = ⟨t.db, t.table ++ ".json", f.entries⟩ := by
  obtain ⟨hfound, hcollected⟩ := List.mem_filter.mp hf
  obtain ⟨folder, hfolder, hf⟩ := List.mem_flatMap.mp hfound
  obtain ⟨name, hname, rfl⟩ := List.mem_map.mp hf
  obtain ⟨entries, hentries⟩ := hholds.dirs folder (List.mem_filter.mp hfolder).1
  have hdir : (folder.1, Entry.dir entries) ∈ top := by
    rw [← hentries]
    exact (List.mem_filter.mp hfolder).1
  rw [hentries] at hname
  obtain ⟨x, hx, rfl⟩ := List.mem_map.mp hname
  have hmem := (List.mem_filter.mp hx).1
  obtain ⟨text, htext⟩ := (hholds.inner folder.1 entries hdir).2 x hmem
  have hfile : (x.1, Entry.file (some text)) ∈ entries := by
    rw [← htext]
    exact hmem
  obtain ⟨⟨t, ht, hstored⟩, hchosen⟩ := (hholds.mem folder.1 x.1 text).mp ⟨entries, hdir, hfile⟩
  have hselects := (chosen_iff hexported.names ht hstored).mp hchosen
  have hext := (of_decide_eq_true hcollected).1
  simp only [Table.files, List.mem_cons, List.not_mem_nil, or_false, Stored.mk.injEq] at hstored
  have hjson : folder.1 = t.db ∧ x.1 = t.table ++ ".json" := by
    rcases hstored with ⟨hdb, hfile, -⟩ | ⟨-, hfile, -⟩
    · exact ⟨hdb, hfile⟩
    · rw [hfile, extOf_info (hexported.names t ht).2] at hext
      exact absurd hext (by decide)
  refine ⟨t, ht, hselects, ?_, ?_⟩
  · rw [hentries, ← hjson.1]
    exact hdir
  · rw [hjson.1, hjson.2]

theorem exists_forall₂ {α β : Type} {r : α → β → Prop} {xs : List α} (h : ∀ x ∈ xs, ∃ y, r x y) :
    ∃ ys, List.Forall₂ r xs ys := by
  induction xs with
  | nil => exact ⟨[], .nil⟩
  | cons x xs ih =>
    rw [List.forall_mem_cons] at h
    obtain ⟨y, hy⟩ := h.1
    obtain ⟨ys, hys⟩ := ih h.2
    exact ⟨y :: ys, .cons hy hys⟩

theorem exists_of_forall₂ {α β : Type} {r : α → β → Prop} {xs : List α} {ys : List β}
    (h : List.Forall₂ r xs ys) {y : β} (hy : y ∈ ys) : ∃ x ∈ xs, r x y := by
  induction h with
  | nil => cases hy
  | cons hr _ ih =>
    rcases List.mem_cons.mp hy with rfl | hy
    · exact ⟨_, List.mem_cons_self, hr⟩
    · obtain ⟨x, hx, hr⟩ := ih hy
      exact ⟨x, List.mem_cons_of_mem _ hx, hr⟩

/-- No file is found twice. -/
theorem found_nodup (hholds : Holds top fun f => FilesOf tables f ∧ Chosen o.dbTables f) :
    ((RethinkDB.Import.found top).map Found.path).Nodup := by
  have hpaths : (RethinkDB.Import.found top).map Found.path =
      (top.filter fun e => !e.2.isFile).flatMap fun e =>
        (RethinkDB.Import.names true e.2.entries).map fun name => (e.1, name) := by
    rw [RethinkDB.Import.found, List.map_flatMap]
    refine List.flatMap_congr fun e _ => ?_
    rw [RethinkDB.Import.filesOf, List.map_map]
    rfl
  rw [hpaths, List.nodup_flatMap]
  constructor
  · intro e he
    obtain ⟨entries, hentries⟩ := hholds.dirs e (List.mem_filter.mp he).1
    have hdir : (e.1, Entry.dir entries) ∈ top := by
      rw [← hentries]
      exact (List.mem_filter.mp he).1
    have hnames : (RethinkDB.Import.names true e.2.entries).Nodup := by
      rw [hentries]
      exact (hholds.inner e.1 entries hdir).1.sublist (List.Sublist.map _ List.filter_sublist)
    exact hnames.map fun a b hab => (Prod.mk.inj hab).2
  · have hnodup : (top.filter fun e => !e.2.isFile).Pairwise fun e e' => e.1 ≠ e'.1 := by
      have hall := hholds.nodup
      rw [List.Nodup, List.pairwise_map] at hall
      exact hall.sublist List.filter_sublist
    refine hnodup.imp fun hne => ?_
    intro p hp hp'
    obtain ⟨name, -, rfl⟩ := List.mem_map.mp hp
    obtain ⟨name', -, heq⟩ := List.mem_map.mp hp'
    exact hne (Prod.mk.inj heq).1.symm

theorem collected_nodup (hexported : Exported loads o tables metadata)
    (hholds : Holds top fun f => FilesOf tables f ∧ Chosen o.dbTables f) :
    ((RethinkDB.Import.collected o top).map Found.key).Nodup := by
  have hpaths : ((RethinkDB.Import.collected o top).map Found.path).Nodup :=
    (found_nodup hholds).sublist (List.Sublist.map _ List.filter_sublist)
  have hkeys : (RethinkDB.Import.collected o top).map Found.path =
      ((RethinkDB.Import.collected o top).map Found.key).map fun key =>
      (key.1, key.2 ++ ".json") := by
    rw [List.map_map]
    refine List.map_congr_left fun f hf => ?_
    obtain ⟨t, ht, -, -, heq⟩ := collected_inv hexported hholds hf
    have htable : f.table = t.table := by
      rw [heq]
      exact (tableOf_json (hexported.names t ht).2).1
    rw [Function.comp_apply, Found.key, htable, heq]
    rfl
  rw [hkeys] at hpaths
  exact hpaths.of_map _

theorem parseDirectory_holds (hexported : Exported loads o tables metadata)
    (hholds : Holds top fun f => FilesOf tables f ∧ Chosen o.dbTables f) :
    ∃ scan, parseDirectory loads o top = .ok scan ∧
      scan.sources.Perm ((tables.filter fun t => Selects o.dbTables t.db t.table).map
      (sourceOf metadata)) := by
  have hload : ∀ f ∈ RethinkDB.Import.collected o top, ∃ s, f.load loads o = .ok s := by
    intro f hf
    obtain ⟨t, ht, hselects, hdir, heq⟩ := collected_inv hexported hholds hf
    rw [heq]
    exact ⟨_, (collected_table hexported hholds ht hselects hdir).2⟩
  obtain ⟨sources, hsources⟩ := exists_forall₂ hload
  have hparse : (parseDirectory loads o top).map RethinkDB.Import.Scan.sources = .ok sources := by
    rw [RethinkDB.Import.parseDirectory_sources]
    exact mapM_eq_ok.mpr hsources
  obtain ⟨scan, hscan, rfl⟩ := map_eq_ok.mp hparse
  have hnodup : (scan.sources.map Source.key).Nodup := by
    rw [RethinkDB.Import.map_key_eq hsources]
    exact collected_nodup hexported hholds
  have hnodup' : (((tables.filter fun t => Selects o.dbTables t.db t.table).map
      (sourceOf metadata)).map Source.key).Nodup := by
    rw [List.map_map]
    exact hexported.keys.sublist (List.Sublist.map _ List.filter_sublist)
  refine ⟨scan, hscan, (List.perm_ext_iff_of_nodup (hnodup.of_map _) (hnodup'.of_map _)).mpr ?_⟩
  intro s
  constructor
  · intro hs
    obtain ⟨f, hf, hok⟩ := exists_of_forall₂ hsources hs
    obtain ⟨t, ht, hselects, hdir, heq⟩ := collected_inv hexported hholds hf
    rw [heq, (collected_table hexported hholds ht hselects hdir).2] at hok
    rw [← Except.ok.inj hok]
    exact List.mem_map_of_mem (List.mem_filter.mpr ⟨ht, decide_eq_true hselects⟩)
  · intro hs
    obtain ⟨t, ht, rfl⟩ := List.mem_map.mp hs
    obtain ⟨ht, hselects⟩ := List.mem_filter.mp ht
    have hselects := of_decide_eq_true hselects
    have hstored : (⟨t.db, t.table ++ ".json", t.json⟩ : Stored) ∈ t.files := by simp [Table.files]
    obtain ⟨entries, hdir, -⟩ := (hholds.mem t.db (t.table ++ ".json") t.json).mpr
      ⟨⟨t, ht, hstored⟩, (chosen_iff hexported.names ht hstored).mpr hselects⟩
    obtain ⟨hcollected, hok⟩ := collected_table hexported hholds ht hselects hdir
    obtain ⟨s, hs, hok'⟩ := RethinkDB.Import.exists_source hsources hcollected
    rw [hok] at hok'
    rw [Except.ok.inj hok']
    exact hs

/-- A restore of a dump, whatever the order in which directories are listed, unpacks every file of
the tables that the selectors choose and nothing else, ignores no file, and finds one source for
each of these tables, with the data and the metadata that were exported for it. -/
theorem restore_dump (directory cwd : Cwd) {stamp : Path} (hstamp : '/' ∉ stamp) (tempDir : Path)
    (hexported : Exported loads o tables metadata) (hexport : Holds top (FilesOf tables))
    (hchosen : ∃ t ∈ tables, Selects o.dbTables t.db t.table) :
    ∃ members s, zipDirectory directory (dumpName stamp) top = some members ∧
      doUnzip cwd tempDir o.dbTables (archiveOf members) .start = (.ok [], s) ∧
      (∀ f, Extracted tempDir members s.opened f ↔ ∃ t ∈ tables,
      Selects o.dbTables t.db t.table ∧ f ∈ t.files) ∧
      ∀ restored, Holds restored (Extracted tempDir members s.opened) →
        ∃ scan, parseDirectory loads o restored = .ok scan ∧ scan.sources.Perm
          ((tables.filter fun t => Selects o.dbTables t.db t.table).map (sourceOf metadata)) := by
  have hnamed := named_of_files hexported.names
  have hall : ∀ f ∈ stored top, ∃ table ext, Named f table ext :=
    fun f hf => hnamed f ((mem_stored hexport f).mp hf)
  have hsome : ∃ f ∈ stored top, Chosen o.dbTables f := by
    obtain ⟨t, ht, hselects⟩ := hchosen
    have hstored : (⟨t.db, t.table ++ ".json", t.json⟩ : Stored) ∈ t.files := by simp [Table.files]
    exact ⟨_, (mem_stored hexport _).mpr ⟨t, ht, hstored⟩,
      (chosen_iff hexported.names ht hstored).mpr hselects⟩
  obtain ⟨s, hunzip, hopened⟩ := doUnzip_named tempDir cwd hstamp hall hsome
  have hextracted := extracted_iff stamp tempDir o.dbTables hexport hnamed
  rw [← hopened] at hextracted
  refine ⟨_, s, zipDirectory_holds hstamp hexport hnamed, hunzip, ?_, ?_⟩
  · intro f
    rw [hextracted]
    constructor
    · rintro ⟨⟨t, ht, hf⟩, hchosen⟩
      exact ⟨t, ht, (chosen_iff hexported.names ht hf).mp hchosen, hf⟩
    · rintro ⟨t, ht, hselects, hf⟩
      exact ⟨⟨t, ht, hf⟩, (chosen_iff hexported.names ht hf).mpr hselects⟩
  · intro restored hrestored
    refine parseDirectory_holds hexported ⟨hrestored.dirs, hrestored.nodup, hrestored.inner, ?_⟩
    intro db file text
    rw [hrestored.mem]
    exact hextracted _

end Sources

def sampleTables : List Table :=
  [⟨"shop", "users", "[1]", "\x7b\x7d"⟩, ⟨"shop", "orders", "[2]", "\x7b\x7d"⟩]

def sampleExport : List (String × Entry) :=
  [("shop", .dir [("orders.json", .file (some "[2]")), ("users.info", .file (some "\x7b\x7d")),
    ("users.json", .file (some "[1]")), ("orders.info", .file (some "\x7b\x7d"))])]

def sampleRestored : List (String × Entry) :=
  [("shop", .dir [("users.json", .file (some "[1]")), ("users.info", .file (some "\x7b\x7d"))])]

def sampleOptions : RethinkDB.Import.Options := ⟨[⟨"shop", some "users"⟩], true, true⟩

theorem sampleExport_holds : Holds sampleExport (FilesOf sampleTables) where
  dirs := by simp [sampleExport]
  nodup := by simp [sampleExport]
  inner := by
    intro db entries h
    obtain ⟨rfl, rfl⟩ : db = "shop" ∧ entries = _ := by simpa [sampleExport] using h
    refine ⟨by decide, fun e he => ?_⟩
    simp only [List.mem_cons, List.not_mem_nil, or_false] at he
    rcases he with rfl | rfl | rfl | rfl <;> exact ⟨_, rfl⟩
  mem := by
    intro db file text
    simp [sampleExport, FilesOf, sampleTables, Table.files]
    tauto

theorem sample_exported : Exported (fun text => Json.loads text.toList) sampleOptions sampleTables
    fun _ => ⟨none, [], .null⟩ where
  names := by
    intro t ht
    simp only [sampleTables, List.mem_cons, List.not_mem_nil, or_false] at ht
    rcases ht with rfl | rfl
    · exact ⟨⟨by simp, by simp⟩, ⟨by simp, by simp⟩⟩
    · exact ⟨⟨by simp, by simp⟩, ⟨by simp, by simp⟩⟩
  keys := by decide
  json := by decide
  info := by
    intro t ht
    simp only [sampleTables, List.mem_cons, List.not_mem_nil, or_false] at ht
    rcases ht with rfl | rfl <;> rfl
  hooks := by decide

/-- A restore of one table of two. -/
theorem restore_dump_users : ∃ members s scan,
    zipDirectory ⟨"/tmp/dump".toList, rfl⟩ (dumpName "2024-01-31T12:00:00".toList) sampleExport =
    some members ∧
      doUnzip ⟨"/home".toList, rfl⟩ "/tmp/restore".toList [⟨"shop", some "users"⟩]
      (archiveOf members) .start =
        (.ok [], s) ∧
      parseDirectory (fun text => Json.loads text.toList) sampleOptions sampleRestored = .ok scan ∧
      scan.sources.Perm
        ((sampleTables.filter fun t => Selects [⟨"shop", some "users"⟩] t.db t.table).map
          (sourceOf fun _ => ⟨none, [], .null⟩)) := by
  have hstamp : '/' ∉ "2024-01-31T12:00:00".toList := by decide
  obtain ⟨members, s, hzip, hunzip, hextracted, hparse⟩ := restore_dump ⟨"/tmp/dump".toList, rfl⟩
    ⟨"/home".toList, rfl⟩ hstamp "/tmp/restore".toList sample_exported sampleExport_holds
      ⟨_, List.mem_cons_self, by decide⟩
  have hrestored : Holds sampleRestored (Extracted "/tmp/restore".toList members s.opened) := by
    refine ⟨by simp [sampleRestored], by simp [sampleRestored], ?_, ?_⟩
    · intro db entries h
      obtain ⟨rfl, rfl⟩ : db = "shop" ∧ entries = _ := by simpa [sampleRestored] using h
      refine ⟨by decide, fun e he => ?_⟩
      simp only [List.mem_cons, List.not_mem_nil, or_false] at he
      rcases he with rfl | rfl <;> exact ⟨_, rfl⟩
    · intro db file text
      rw [hextracted]
      simp [sampleRestored, sampleOptions, sampleTables, Table.files, Selects]
      tauto
  obtain ⟨scan, hscan, hperm⟩ := hparse sampleRestored hrestored
  exact ⟨members, s, scan, hzip, hunzip, hscan, hperm⟩

end RethinkDB.Restore
