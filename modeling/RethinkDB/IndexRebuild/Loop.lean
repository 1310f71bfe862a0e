import RethinkDB.Lib.Double
import RethinkDB.Lib.Machine

/-! The main loop of `rebuild_indexes`: what it moves between its two lists, what it has the server
do, and what it prints. The server answers every poll as it likes. -/
namespace RethinkDB.IndexRebuild
open RethinkDB.Lib

/-- An index on the server, and an entry of `indexes_to_build`. -/
structure Index where
  db : String
  table : String
  name : String
  deriving Repr, DecidableEq

def tmpIndexPrefix : String := "$reql_temp_index$_"

/-- The index under `index["temp_name"]`. -/
def Index.temp (i : Index) : Index := { i with name := tmpIndexPrefix ++ i.name }

def Index.IsTemp (i : Index) : Prop := tmpIndexPrefix.toList <+: i.name.toList

instance (i : Index) : Decidable i.IsTemp :=
  inferInstanceAs (Decidable (tmpIndexPrefix.toList <+: i.name.toList))

/-- The indexes of the server with their definitions. -/
abbrev Server (F : Type) := Index → Option F

def Server.set {F : Type} (server : Server F) (i : Index) (f : Option F) : Server F :=
  fun j => if j = i then f else server j

/-- `index_rename(temp_name, name, overwrite=True)`. -/
def Server.rename {F : Type} (server : Server F) (i : Index) : Server F :=
  (server.set i (server i.temp)).set i.temp none

structure Progress where
  index : Index
  ready : Bool
  deriving Repr, DecidableEq

/-- Where the loop stands: filling the list, or polling the entries `todo`; it `raised` if an
index or a status was not there. -/
inductive Phase where
  | filling
  | polling (todo : List Index)
  | ended
  | raised
  deriving Repr, DecidableEq

/-- `renamed` and `printed` are the history of the renames and of the `print_progress` calls in
the loop. -/
structure State (F : Type) where
  server : Server F
  total : ℕ
  toBuild : List Index
  inProgress : List Progress
  progressRatio : ℚ
  highestProgress : ℚ
  phase : Phase
  renamed : List Index
  printed : List ℚ

variable {F : Type}

def init (server : Server F) (indexes : List Index) : State F where
  server := server
  total := indexes.length
  toBuild := indexes
  inProgress := []
  progressRatio := 0
  highestProgress := 0
  phase := .filling
  renamed := []
  printed := []

/-- What `index_status` says of a temporary index. -/
inductive Status where
  | ready
  | building (progress : ℚ)
  deriving Repr, DecidableEq

/-- `print` stands for the `print_progress(1.0)` after the loop. -/
inductive Event where
  | start
  | report
  | poll (status : Status)
  | endRound
  | print
  deriving Repr, DecidableEq

/-- The arithmetic of the progress: `a + b` and `a / b` in double precision. -/
def addDouble (a b : ℚ) : ℚ := roundDouble (a + b)

def divDouble (a b : ℚ) : ℚ := roundDouble (a / b)

/-- `concurrent` is the limit `options.concurrent`. -/
def step (concurrent : ℕ) (s : State F) : Event → Option (State F)
  | .start =>
    if s.phase = .filling ∧ s.inProgress.length < concurrent then
      match s.toBuild.getLast? with
      | none => none
      | some i =>
        let s := { s with
          toBuild := s.toBuild.dropLast
          inProgress := s.inProgress ++ [Progress.mk i false] }
        match s.server i, s.server i.temp with
        | none, _ => some { s with phase := .raised }
        | some _, some _ => some s
        | some f, none => some { s with server := s.server.set i.temp (some f) }
    else none
  | .report =>
    if s.phase = .filling ∧ (s.toBuild ≠ [] ∨ s.inProgress ≠ []) ∧
        ¬(s.toBuild ≠ [] ∧ s.inProgress.length < concurrent) then
      let highest := max s.highestProgress s.progressRatio
      some { s with
        highestProgress := highest, printed := s.printed ++ [highest], progressRatio := 0
        phase := .polling (s.inProgress.map Progress.index) }
    else none
  | .poll status => match s.phase with
    | .polling (i :: todo) =>
      let s := { s with phase := .polling todo }
      match s.server i.temp, status with
      | none, _ => some { s with phase := .raised }
      | some _, .ready =>
        some { s with
          server := s.server.rename i, renamed := s.renamed ++ [i]
          inProgress := s.inProgress.map fun p => if p.index = i then { p with ready := true } else p }
      | some _, .building progress =>
        some { s with
          progressRatio := addDouble s.progressRatio (divDouble progress s.total) }
    | _ => none
  | .endRound =>
    if s.phase = .polling [] then
      let inProgress := s.inProgress.filter fun p => !p.ready
      let completed := s.total - s.toBuild.length - inProgress.length
      some { s with
        inProgress, phase := .filling
        progressRatio := addDouble s.progressRatio (divDouble completed s.total) }
    else none
  | .print =>
    if s.phase = .filling ∧ s.toBuild = [] ∧ s.inProgress = [] then
      some { s with phase := .ended }
    else none

def machine (server : Server F) (indexes : List Index) (concurrent : ℕ) :
    Machine (State F) Event where
  init s := s = init server indexes
  step s e s' := step concurrent s e = some s'

end RethinkDB.IndexRebuild
