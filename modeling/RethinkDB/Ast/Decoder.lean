import RethinkDB.Ast.Term

/-! `ReQLDecoder` of `rethinkdb/ast.py`: JSON with its pseudo-types turned into Python values. -/
namespace RethinkDB.Ast
open RethinkDB.Lib

structure FormatOpts where
  timeFormat : Option String
  groupFormat : Option String
  binaryFormat : Option String
  deriving Repr, DecidableEq

/-- `convert_time` and `convert_grouped_data`. -/
structure Converters where
  convertTime : List (String × Value) → Except AstExn Value
  convertGroupedData : List (String × Value) → Except AstExn Value

def convertBinary (obj : List (String × Value)) : Except AstExn Value :=
  match obj.lookup "data" with
  | none => .error (.missingField "BINARY" "data" obj)
  | some (.scalar (.str data)) => match Base64.decode (utf8Encode data) with
    | some data => .ok (.bytes data)
    | none => .error .value
  | some _ => .error .attribute

/-- What the format of a pseudo-type makes of an object of it. -/
def withFormat (option : String) (format : Option String) (obj : List (String × Value))
    (native : List (String × Value) → Except AstExn Value) : Except AstExn Value :=
  match format with
  | none => native obj
  | some format =>
    if format = "native" then native obj
    else if format = "raw" then .ok (.dict obj)
    else .error (.unknownFormat option format)

section Decoder
variable (converters : Converters) (opts : FormatOpts)

def convertPseudotype (obj : List (String × Value)) : Except AstExn Value :=
  match obj.lookup "$reql_type$" with
  | none | some (.scalar .none) => .ok (.dict obj)
  | some (.scalar (.str type)) =>
    if type = "TIME" then withFormat "time_format" opts.timeFormat obj converters.convertTime
    else if type = "GROUPED_DATA" then
      withFormat "group_format" opts.groupFormat obj converters.convertGroupedData
    else if type = "GEOMETRY" then .ok (.dict obj)
    else if type = "BINARY" then withFormat "binary_format" opts.binaryFormat obj convertBinary
    else .error (.unknownPseudotype (.scalar (.str type)))
  | some type => .error (.unknownPseudotype type)

mutual

/-- The values of a JSON text, with `object_hook` called on the innermost objects first. -/
def convert : Json → Except AstExn Value
  | .null => .ok (.scalar .none)
  | .bool b => .ok (.scalar (.bool b))
  | .int n => .ok (.scalar (.int n))
  | .float x => .ok (.scalar (.float x))
  | .str s => .ok (.scalar (.str s))
  | .arr items => (convertItems items).map .list
  | .obj fields => do convertPseudotype converters opts (← convertFields fields)

def convertItems : List Json → Except AstExn (List Value)
  | [] => .ok []
  | item :: items => do
    let val ← convert item
    return val :: (← convertItems items)

def convertFields : List (String × Json) → Except AstExn (List (String × Value))
  | [] => .ok []
  | (key, item) :: fields => do
    let val ← convert item
    return (key, val) :: (← convertFields fields)

end

/-- `ReQLDecoder(opts).decode(text)`. -/
def decode (text : List Char) : Except AstExn Value :=
  match Json.loads text with
  | some json => convert converters opts json
  | none => .error .json

end Decoder
end RethinkDB.Ast
