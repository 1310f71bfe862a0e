import Mathlib.Data.Finmap
import RethinkDB.Lib.Prog

/-! The work of `table_writer` on one batch, from `rethinkdb/_import.py`. The table server is
a parameter; what is relied on of its single-row operations is stated with it. -/
namespace RethinkDB.Import
open RethinkDB.Lib Prog

abbrev Row (V : Type) := Finmap fun _ : String => V

inductive ConflictAction where
  | error | replace
  deriving Repr, DecidableEq

/-- The object an insert returns; `first_error` is there only when there were errors. -/
structure InsertResult where
  errors : ℕ
  inserted : ℕ
  replaced : ℕ
  unchanged : ℕ
  firstError : Option String
  deriving Repr, DecidableEq

/-- `reql` is any `errors.ReqlError`; `type` and `key` are Python's own. -/
inductive WriterExn where
  | reql (text : String)
  | runtime (text : String)
  | type | key
  deriving Repr, DecidableEq

/-- `tbl.get` and `tbl.insert`, each under `retryQuery`; a single row is a batch of one. -/
structure TableServer (V : Type) where
  State : Type
  get : V → Prog State WriterExn (Option (Row V))
  insert : ConflictAction → List (Row V) → Prog State WriterExn InsertResult

/-- Values of `table_writer`: its table, its conflict mode and Python's `str`. -/
structure Writer (V : Type) where
  db : String
  table : String
  primaryKey : String
  conflictAction : ConflictAction
  strRow : Row V → String
  strResult : InsertResult → String

structure World {V : Type} (S : TableServer V) where
  server : S.State
  rowsWritten : ℕ
  errorQueue : List WriterExn
  exitEvent : Bool

variable {V : Type} [DecidableEq V] {S : TableServer V}

namespace Writer

def query {α : Type} (m : Prog S.State WriterExn α) : Prog (World S) WriterExn α :=
  zoom World.server (fun server w => { w with server }) m

/-- `table_info.add_rows_written`. -/
def addRowsWritten (increment : ℕ) : Prog (World S) WriterExn Unit :=
  modify fun w => { w with rowsWritten := w.rowsWritten + increment }

/-- `raise RuntimeError(.. % res["first_error"])`. -/
def raiseFirst (text : String) (res : InsertResult) : Prog (World S) WriterExn Unit :=
  match res.firstError with
  | some firstError => throw (.runtime s!"{text}: {firstError}")
  | none => throw .key

/-- `not existingRow`. -/
def Missing (existingRow : Option (Row V)) : Prop := existingRow.getD ∅ = ∅

instance (existingRow : Option (Row V)) : Decidable (Missing existingRow) := by
  unfold Missing
  infer_instance

/-- The branches that choose `res` for a row; it stays `None` when the row is there already. -/
def rowResult (W : Writer V) (row : Row V) (key : V) :
    Prog (World S) WriterExn (Option InsertResult) :=
  match W.conflictAction with
  | .replace => do
    let res ← query (S.insert .replace [row])
    return some res
  | .error => do
    let existingRow ← query (S.get key)
    if Missing existingRow then do
      let res ← query (S.insert .error [row])
      return some res
    else if existingRow ≠ some row then
      throw (.runtime s!"Duplicate primary key `{W.primaryKey}`:\n{W.strRow row}\n{
        W.strRow (existingRow.getD ∅)}")
    else return none

def checkRow (W : Writer V) : Option InsertResult → Prog (World S) WriterExn Unit
  | none => throw .type
  | some res => do
    if 0 < res.errors then
      raiseFirst s!"Error when importing into table '{W.db}.{W.table}'" res
    if res.inserted + res.replaced + res.unchanged ≠ 1 then
      throw (.runtime s!"The inserted/replaced/unchanged number was not 1 when inserting on '{
        W.db}.{W.table}': {W.strResult res}")
    addRowsWritten 1

/-- One turn of the recovery loop. -/
def writeRow (W : Writer V) (row : Row V) : Prog (World S) WriterExn Unit :=
  match row.lookup W.primaryKey with
  | none => throw (.runtime (s!"Connection error while importing.  Current row does not have the " ++
      s!"specified primary key ({W.primaryKey}), so cannot guarantee absence of duplicates"))
  | some key => do checkRow W (← rowResult W row key)

def insertBatch (W : Writer V) (batch : List (Row V)) : Prog (World S) WriterExn Unit := do
  let res ← query (S.insert W.conflictAction batch)
  if 0 < res.errors then
    raiseFirst s!"Error when importing into table '{W.db}.{W.table}'" res
  let modified := res.inserted + res.replaced + res.unchanged
  if modified ≠ batch.length then
    raiseFirst (s!"The inserted/replaced/unchanged number did not match when importing into " ++
      s!"table '{W.db}.{W.table}'") res
  addRowsWritten modified

/-- `except errors.ReqlError`. -/
def writeBatch (W : Writer V) (batch : List (Row V)) : Prog (World S) WriterExn Unit :=
  handle (insertBatch W batch) fun e => match e with
    | .reql _ => forEach (writeRow W) batch
    | e => throw e

/-- `except Exception` around the loop of `table_writer`. -/
def processBatch (W : Writer V) (batch : List (Row V)) : Prog (World S) WriterExn Unit :=
  handle (writeBatch W batch) fun e => modify fun w =>
    { w with errorQueue := w.errorQueue ++ [e], exitEvent := true }

end Writer
end RethinkDB.Import
