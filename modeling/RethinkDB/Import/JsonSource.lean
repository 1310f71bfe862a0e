import RethinkDB.Lib.JsonPrefix
import RethinkDB.Lib.Prog

/-! `JsonSourceFile`: a JSON file read through a sliding buffer that doubles when nothing in it
is complete, and `SourceFile.batches` over it. -/
namespace RethinkDB.Import
open RethinkDB.Lib Prog

/-- What the reader relies on: `rawDecode` reads one value at the start of a text and says how far
it went; nothing stands for a `ValueError` or an `IndexError`. -/
structure JSONDecoder (V : Type) where
  rawDecode : List Char → Option (V × ℕ)
  Document : List Char → V → Prop
  braces {doc : List Char} {value : V} :
    Document doc value → ∃ body, doc = '{' :: (body ++ ['}'])
  decodes {doc : List Char} {value : V} (rest : List Char) :
    Document doc value → rawDecode (doc ++ rest) = some (value, doc.length)
  fails {doc : List Char} {value : V} {n : ℕ} :
    Document doc value → n < doc.length → rawDecode (doc.take n) = none
  bracket (rest : List Char) : rawDecode (']' :: rest) = none
  within {text : List Char} {value : V} {n : ℕ} :
    rawDecode text = some (value, n) → 0 < n ∧ n ≤ text.length

/-- The decoder of `json`, for texts without fractions. -/
def jsonDecoder : JSONDecoder Json where
  rawDecode := Json.rawDecode
  Document := Json.Object
  braces := Json.Object.braces
  decodes := Json.Object.rawDecode
  fails := Json.Object.take
  bracket := Json.rawDecode_bracket
  within := Json.rawDecode_within

namespace Source

def jsonReadChunkSize : ℕ := 128 * 1024

/-- Unless `--max-document-size` is given. -/
def jsonMaxBufferSize : ℕ := 128 * 1024 * 1024

inductive Raised where
  | needMoreData
  | stopIteration
  | assertionError (message : String)
  | attributeError (name : String)
  | indexError
  | typeError
  | valueError (message : String)
  deriving Repr, DecidableEq

structure JsonSourceFile where
  /-- What is still to be read of the file. -/
  source : List Char
  jsonArray : Option Bool
  foundFirst : Bool
  bufferSize : ℕ
  bufferStr : Option (List Char)
  bufferPos : ℕ
  bufferEnd : ℕ
  bytesRead : ℤ
  deriving Repr, DecidableEq

namespace JsonSourceFile

def init (text : List Char) (bufferSize : ℕ) : JsonSourceFile where
  source := text
  jsonArray := none
  foundFirst := false
  bufferSize := bufferSize
  bufferStr := none
  bufferPos := 0
  bufferEnd := 0
  bytesRead := -1

def advance (f : JsonSourceFile) (k : ℕ) : JsonSourceFile :=
  { f with bufferPos := f.bufferPos + k }

/-- The buffer from the position on. -/
def snippit (f : JsonSourceFile) : List Char := (f.bufferStr.getD []).drop f.bufferPos

/-- Drop what is behind the position and put the new chunk at the end. -/
def slide (f : JsonSourceFile) (newChunk : List Char) : JsonSourceFile :=
  let str := f.snippit ++ newChunk
  { f with
    bufferStr := some str, bufferPos := 0, bufferEnd := str.length - 1
    bytesRead := f.bytesRead + newChunk.length }

end JsonSourceFile

section Reader
-- the JSON decoder, and `JSON_MAX_BUFFER_SIZE`
variable {V : Type} (D : JSONDecoder V) (maxSize : ℕ)

/-- The first part of `fill_buffer`: the first buffer, or one twice the size. -/
def widen : Prog JsonSourceFile Raised Unit := fun f =>
  match f.bufferStr with
  | none => (.ok (), { f with bufferStr := some [], bufferPos := 0, bufferEnd := 0 })
  | some _ =>
    if f.bufferPos = 0 then
      -- the message of the exception meant here names an attribute that there is not
      if f.bufferSize = maxSize then (.error (.attributeError "bytes_processed"), f)
      else (.ok (), { f with bufferSize := min (f.bufferSize * 2) maxSize })
    else (.ok (), f)

def fillBuffer : Prog JsonSourceFile Raised Unit := do
  widen maxSize
  let readTarget ← read fun f => f.bufferSize + f.bufferPos - f.bufferEnd
  raiseIf (readTarget < 1) (.assertionError "Can not set the read target and full the buffer")
  let newChunk ← read fun f => f.source.take readTarget
  modify fun f => { f with source := f.source.drop readTarget }
  raiseIf (newChunk = []) .stopIteration
  modify fun f => f.slide newChunk

/-- `self._buffer_pos = WHITESPACE.match(self._buffer_str, self._buffer_pos).end()`. -/
def skipWhitespace : Prog JsonSourceFile Raised Unit := fun f =>
  match f.bufferStr with
  | none => (.error .typeError, f)
  | some _ => (.ok (), f.advance (f.snippit.takeWhile Json.isWhitespace).length)

def checkEnd : Prog JsonSourceFile Raised Unit := fun f =>
  if f.bufferEnd ≤ f.bufferPos then (.error .needMoreData, f) else (.ok (), f)

/-- Over a comma, if this is not the first item of an array. -/
def skipComma : Prog JsonSourceFile Raised Unit := fun f =>
  if f.jsonArray = some true ∧ f.foundFirst = true ∧ f.snippit.head? = some ',' then
    checkEnd (f.advance 1)
  else (.ok (), f)

def parse : Prog JsonSourceFile Raised V := fun f =>
  match D.rawDecode f.snippit with
  | some (row, length) => (.ok row, { f.advance length with foundFirst := true })
  | none => (.error .needMoreData, f)

def getLine : Prog JsonSourceFile Raised V := do
  skipWhitespace
  checkEnd
  skipComma
  skipWhitespace
  checkEnd
  parse D

/-- One turn of the loop that passes over leading whitespace. -/
def setupTurn : Prog JsonSourceFile Raised Bool := do
  fillBuffer maxSize
  modify fun f => { f with bufferPos := 0 }
  skipWhitespace
  read fun f => decide (f.bufferPos ≠ 0)

def checkFirst : Prog JsonSourceFile Raised Unit := fun f =>
  match (f.bufferStr.getD []).head? with
  | some '[' => (.ok (), { f with jsonArray := some true, bufferPos := 1 })
  | some '{' => (.ok (), { f with jsonArray := some false })
  | some _ => (.error (.valueError
      "Error: JSON format not recognized - file does not begin with an object or array"), f)
  | none => (.error (.valueError "Error: JSON file was empty of content"), f)

def setupFile (fuel : ℕ) : Prog JsonSourceFile Raised Unit := do
  turns (setupTurn maxSize) fuel
  checkFirst

def quoted (snippit : List Char) : String :=
  "<<" ++ String.ofList (snippit.take 100) ++ ">>" ++
    if snippit.length ≤ 100 then ""
    else " and " ++ toString (snippit.length - 100) ++ " more characters"

def checkBracket : Prog JsonSourceFile Raised Unit := fun f =>
  if f.jsonArray = some true then
    match f.snippit.head? with
    | none => (.error .indexError, f)
    | some c =>
      if c = ']' then (.ok (), f.advance 1)
      else (.error (.valueError
        ("Error: JSON array did not end cleanly, rather with: " ++ quoted f.snippit)), f)
  else (.ok (), f)

def checkRest : Prog JsonSourceFile Raised Unit := fun f =>
  if 0 < f.snippit.length then
    (.error (.valueError ("Error: extra data after JSON data: " ++ quoted f.snippit)), f)
  else (.ok (), f)

def teardown : Prog JsonSourceFile Raised Unit := do
  skipWhitespace
  checkBracket
  skipWhitespace
  checkRest

/-! ### Batches -/

/-- `batches` while it runs, with the batches it has yielded. -/
structure Job (V : Type) where
  file : JsonSourceFile
  batch : List V
  needMoreData : Bool
  yielded : List (List V)
  deriving Repr, DecidableEq

namespace Job

def init (text : List Char) (bufferSize : ℕ) : Job V :=
  ⟨.init text bufferSize, [], false, []⟩

def setFile (f : JsonSourceFile) (j : Job V) : Job V := { j with file := f }

def yieldBatch (j : Job V) : Job V :=
  { j with yielded := j.yielded ++ [j.batch], batch := [] }

end Job

def onFile {α : Type} (m : Prog JsonSourceFile Raised α) : Prog (Job V) Raised α :=
  zoom Job.file Job.setFile m

/-- One pass of `get_line` and `append`, with the `except NeedMoreData`. -/
def readRow : Prog (Job V) Raised Unit :=
  handle (do
      let row ← onFile (getLine D)
      modify fun j => { j with batch := j.batch ++ [row] })
    fun
      | .needMoreData => modify fun j => { j with needMoreData := true }
      | e => throw e

/-- One turn of the two loops taken as one: the buffer is filled on the way back from a row that
was not complete, and a full batch is yielded when the inner loop is through. -/
def turn (batchSize : ℤ) : Prog (Job V) Raised Bool := do
  if ← read Job.needMoreData then
    onFile (fillBuffer maxSize)
    modify fun j => { j with needMoreData := false }
  if ← read fun j => decide ((j.batch.length : ℤ) < batchSize) then readRow D
  else modify Job.yieldBatch
  pure true

def defaultBatchSize : ℤ := 200

/-- The last batch, and the end of the file. -/
def finish : Prog (Job V) Raised Unit := do
  modify fun j => if j.batch = [] then j else j.yieldBatch
  onFile teardown

/-- `batches`, without the table and the indexes in the database; `fuel` bounds its two loops. -/
def batches (batchSize : Option ℤ) (fuel : ℕ) : Prog (Job V) Raised Unit := do
  let batchSize := batchSize.getD defaultBatchSize
  raiseIf (batchSize ≤ 0) (.assertionError "Batch size can not be less than one")
  onFile (setupFile maxSize fuel)
  handle (turns (turn D maxSize batchSize) fuel) fun
    | .stopIteration => finish
    | e => throw e

end Reader
end Source
end RethinkDB.Import
