import RethinkDB.Lib.Path
import RethinkDB.Lib.Prog
import RethinkDB.Lib.Str
import RethinkDB.Utils.Selector

/-! `do_unzip` of `rethinkdb/_restore.py`: which files of an archive it writes, and where. -/
namespace RethinkDB.Restore
open RethinkDB.Lib Prog Path Utils

/-- The first three are the `RuntimeError`s "Error: Archive file has an unexpected directory
structure: {name}", "Error: Archive file has an unexpected directory structure ({top} vs
{top_level})" and "Error: Archive file had no files". -/
inductive UnzipExn where
  | structure (name : List Char)
  | topLevel (top topLevel : Path)
  | noFiles
  | other (text : String)
  deriving Repr, DecidableEq

/-- An entry of the archive, and what making its directory and writing it come to. -/
structure TarInfo where
  name : List Char
  isFile : Bool
  makedirs : Except UnzipExn Unit
  write : Except UnzipExn Unit

/-- `opening` and `reading` are what the tar file itself raises before and after its entries. -/
structure Archive where
  opening : Except UnzipExn Unit
  members : List TarInfo
  reading : Except UnzipExn Unit

/-- A file opened for writing, and the entry it is for. -/
structure Opened where
  name : List Char
  path : Path
  deriving Repr, DecidableEq

/-- `topLevel` is empty until there is one. -/
structure State where
  topLevel : Path
  filesIgnored : List (List Char)
  filesFound : Bool
  opened : List Opened
  deriving Repr, DecidableEq

def State.start : State := ⟨[], [], false, []⟩

def extensions : List Path := [".json".toList, ".csv".toList, ".info".toList]

section Unzip
variable (cwd : Cwd) (tempDir : Path) (dbTables : List DbTable)

/-- The path of an entry, relative to the working directory. -/
def relpathOf (name : List Char) : Path :=
  relpath cwd (abspath cwd ((Str.strip name).dropWhile (· = '/')))

def ignore (name : List Char) : Prog State UnzipExn Unit :=
  modify fun s => { s with filesIgnored := s.filesIgnored ++ [name] }

def checkTop (top : Path) : Prog State UnzipExn Unit := do
  let topLevel ← read State.topLevel
  if topLevel = [] then modify fun s => { s with topLevel := top }
  else raiseIf (top ≠ topLevel) (.topLevel top topLevel)

def writeOut (tarinfo : TarInfo) (db fileName : Path) : Prog State UnzipExn Unit := do
  modify fun s => { s with filesFound := true }
  let destPath := join (join tempDir db) fileName
  ofExcept tarinfo.makedirs
  modify fun s => { s with opened := s.opened ++ [⟨tarinfo.name, destPath⟩] }
  ofExcept tarinfo.write

/-- One turn of the loop over the archive. -/
def unzipMember (tarinfo : TarInfo) : Prog State UnzipExn Unit :=
  if !tarinfo.isFile then pure ()
  else
    let relpath := relpathOf cwd tarinfo.name
    if ['.', '.'] <+: relpath then ignore tarinfo.name
    else if (splitext relpath).2 ∉ extensions then ignore tarinfo.name
    else match relpath.splitOn '/' with
      | [top, db, fileName] => do
        checkTop top
        let table := (splitext fileName).1
        if Selects dbTables (.ofList db) (.ofList table) then writeOut tempDir tarinfo db fileName
        else pure ()
      | _ => throw (.structure tarinfo.name)

def doUnzip (archive : Archive) : Prog State UnzipExn (List (List Char)) := do
  ofExcept archive.opening
  forEach (unzipMember cwd tempDir dbTables) archive.members
  ofExcept archive.reading
  raiseIf ((← read State.filesFound) = false) .noFiles
  read State.filesIgnored

end Unzip

/-! ### Nothing is written elsewhere -/

/-- A file that may be opened, of an archive whose first component is `top`. -/
structure Confined (cwd : Cwd) (tempDir : Path) (dbTables : List DbTable) (top : Path)
    (o : Opened) : Prop where
  top_ne_nil : top ≠ []
  placed : ∃ db file, (relpathOf cwd o.name).splitOn '/' = [top, db, file] ∧
    Proper db ∧ Proper file ∧ o.path = asDir tempDir ++ db ++ '/' :: file ∧
    (∃ ext ∈ extensions, ext <:+ file) ∧
    Selects dbTables (.ofList db) (.ofList (splitext file).1)

section Confinement
variable {cwd : Cwd} {tempDir : Path} {dbTables : List DbTable}

def Inside (cwd : Cwd) (tempDir : Path) (dbTables : List DbTable) (s : State) : Prop :=
  ∀ o ∈ s.opened, Confined cwd tempDir dbTables s.topLevel o

theorem extension_no_sep {ext : Path} (h : ext ∈ extensions) : '/' ∉ ext := by
  have hall : ∀ ext ∈ extensions, '/' ∉ ext := by decide
  exact hall ext h

theorem splitOn_relpath {path : Path} {comps : List Path} (h : (relpath cwd path).splitOn '/' = comps)
    (hup : ¬ ['.', '.'] <+: relpath cwd path) (hlength : comps.length ≠ 1) :
    ∀ c ∈ comps, Proper c := by
  obtain hdot | hout | ⟨comps', hne, hproper, hcomps'⟩ := relpath_cases cwd path
  · rw [hdot] at h
    rw [← h] at hlength
    exact absurd rfl hlength
  · exact absurd hout hup
  · rw [hcomps', splitOn_unsplit hproper hne] at h
    rw [← h]
    exact hproper

theorem unsplit_three (top db file : Path) :
    unsplit [top, db, file] = (top ++ '/' :: db) ++ '/' :: file := by
  simp [unsplit, List.intercalate_cons_cons]

/-- What the checks before the first component leave. -/
theorem confined_of_checks {name : List Char} {top db file : Path}
    (hup : ¬ ['.', '.'] <+: relpathOf cwd name)
    (hext : (splitext (relpathOf cwd name)).2 ∈ extensions)
    (hsplit : (relpathOf cwd name).splitOn '/' = [top, db, file])
    (hselects : Selects dbTables (.ofList db) (.ofList (splitext file).1)) :
    Confined cwd tempDir dbTables top ⟨name, join (join tempDir db) file⟩ := by
  have hproper : ∀ c ∈ [top, db, file], Proper c := splitOn_relpath hsplit hup (by simp)
  have hdb : Proper db := hproper db (by simp)
  have hfile : Proper file := hproper file (by simp)
  have hpath : join (join tempDir db) file = asDir tempDir ++ db ++ '/' :: file := by
    rw [join_of_proper hdb, join_of_proper hfile, asDir_append hdb, List.append_assoc]
    rfl
  have hrelpath : relpathOf cwd name = (top ++ '/' :: db) ++ '/' :: file := by
    rw [← unsplit_three, ← hsplit]
    exact (List.intercalate_splitOn '/').symm
  have hsuffix : (splitext (relpathOf cwd name)).2 <:+ (top ++ '/' :: db) ++ '/' :: file := by
    rw [← hrelpath]
    exact ⟨_, splitext_append _⟩
  constructor
  · exact (hproper top (by simp)).ne_nil
  · exact ⟨db, file, hsplit, hdb, hfile, hpath,
      ⟨_, hext, suffix_of_no_sep (extension_no_sep hext) hsuffix⟩, hselects⟩

theorem inside_checkTop {top : Path} {s : State} (hs : Inside cwd tempDir dbTables s) :
    wp (checkTop top)
      (fun o s' => Inside cwd tempDir dbTables s' ∧ (o = .ok () → s'.topLevel = top)) s := by
  unfold checkTop
  rw [wp_bind, wp_read, bindPost_ok, wp_ite]
  constructor
  · intro hempty
    rw [wp_modify]
    refine ⟨fun o ho => ?_, fun _ => rfl⟩
    exact absurd hempty (hs o ho).top_ne_nil
  · intro _
    unfold raiseIf
    rw [wp_ite]
    constructor
    · intro _
      rw [wp_throw]
      exact ⟨hs, fun h => by cases h⟩
    · intro htop
      exact ⟨hs, fun _ => (not_not.mp htop).symm⟩

theorem inside_writeOut {tarinfo : TarInfo} {db file : Path} {s : State}
    (hs : Inside cwd tempDir dbTables s)
    (hfile : Confined cwd tempDir dbTables s.topLevel ⟨tarinfo.name, join (join tempDir db) file⟩) :
    wp (writeOut tempDir tarinfo db file) (fun _ s' => Inside cwd tempDir dbTables s') s := by
  unfold writeOut
  rw [wp_bind, wp_modify, bindPost_ok]
  apply wp_ofExcept_bind
  · exact fun _ => hs
  intro _ _
  rw [wp_bind, wp_modify, bindPost_ok]
  have hopened : Inside cwd tempDir dbTables
      { s with filesFound := true,
               opened := s.opened ++ [⟨tarinfo.name, join (join tempDir db) file⟩] } := by
    intro o ho
    cases List.mem_append.mp ho with
    | inl ho => exact hs o ho
    | inr ho =>
      rw [List.mem_singleton.mp ho]
      exact hfile
  cases tarinfo.write with
  | ok _ => exact hopened
  | error _ => exact hopened

/-- Every turn keeps the invariant, whether it raises or not. -/
theorem inside_unzipMember (tarinfo : TarInfo) {s : State} (hs : Inside cwd tempDir dbTables s) :
    wp (unzipMember cwd tempDir dbTables tarinfo)
      (fun _ s' => Inside cwd tempDir dbTables s') s := by
  unfold unzipMember
  dsimp only
  split
  · exact hs
  rw [wp_ite]
  constructor
  · exact fun _ => hs
  intro hup
  rw [wp_ite]
  constructor
  · exact fun _ => hs
  intro hext
  rw [not_not] at hext
  split
  · rename_i top db file hsplit
    rw [wp_bind]
    apply (inside_checkTop hs).mono
    intro o s' hcheck
    cases o with
    | ok _ =>
      rw [bindPost_ok, wp_ite]
      constructor
      · intro hselects
        apply inside_writeOut hcheck.1
        rw [hcheck.2 rfl]
        exact confined_of_checks hup hext hsplit hselects
      · exact fun _ => hcheck.1
    | error _ => exact hcheck.1
    | running => exact hcheck.1
  · exact hs

theorem inside_forEach (members : List TarInfo) {s : State} (hs : Inside cwd tempDir dbTables s) :
    wp (forEach (unzipMember cwd tempDir dbTables) members)
      (fun _ s' => Inside cwd tempDir dbTables s') s := by
  induction members generalizing s with
  | nil => exact hs
  | cons tarinfo members ih =>
    rw [forEach, wp_bind]
    apply (inside_unzipMember tarinfo hs).mono
    intro o s' hs'
    cases o with
    | ok _ => exact ih hs'
    | error _ => exact hs'
    | running => exact hs'

theorem inside_doUnzip (archive : Archive) :
    wp (doUnzip cwd tempDir dbTables archive) (fun _ s' => Inside cwd tempDir dbTables s')
      .start := by
  have hstart : Inside cwd tempDir dbTables .start := fun o ho => absurd ho List.not_mem_nil
  unfold doUnzip
  apply wp_ofExcept_bind
  · exact fun _ => hstart
  intro _ _
  rw [wp_bind]
  apply (inside_forEach archive.members hstart).mono
  intro o s hs
  cases o with
  | ok _ =>
    rw [bindPost_ok]
    apply wp_ofExcept_bind
    · exact fun _ => hs
    intro _ _
    rw [wp_bind, wp_read, bindPost_ok]
    apply wp_raiseIf_bind
    · exact fun _ => hs
    · exact fun _ => hs
  | error _ => exact hs
  | running => exact hs

end Confinement

/-- However the call ends, each file it has opened is in a directory of a database, and all come
from one first component. -/
theorem doUnzip_confined (cwd : Cwd) (tempDir : Path) (dbTables : List DbTable) (archive : Archive) :
    ∃ top, ∀ o ∈ (doUnzip cwd tempDir dbTables archive .start).2.opened,
      Confined cwd tempDir dbTables top o :=
  ⟨_, inside_doUnzip archive⟩

end RethinkDB.Restore
