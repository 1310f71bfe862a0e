import RethinkDB.Lib.Hex
import RethinkDB.Lib.PyModule
import RethinkDB.Lib.Str
import RethinkDB.Lib.Url

/-! `scripts/convert_protofile.py`: the definitions of a .proto file in a target language. -/
namespace RethinkDB.Scripts
open RethinkDB.Lib

/-- `\w` of `re`; outside ASCII all that matters is that no space is one. -/
structure WordChars where
  word : Char → Bool
  ascii : ∀ c : Char, c.toNat < 128 → word c = (c.isAlphanum || c == '_')
  not_space : ∀ c : Char, Str.isSpace c = true → word c = false

/-- An entry of `languageDefs`; the templates take the tabs and what they are about. -/
structure Language where
  initialIndentLevel : ℤ
  header : List Char
  separator : List Char
  opening : List Char → List Char → List Char
  value : List Char → List Char → List Char → List Char
  empty : Option (List Char)
  close : Option (List Char)
  closeAlwaysNewLine : Bool
  footer : List Char

def python : Language where
  initialIndentLevel := 0
  header := "# DO NOT EDIT\n# Autogenerated by convert_protofile.py\n".toList
  separator := []
  opening tabs name := "\n".toList ++ tabs ++ "class ".toList ++ name ++ ":".toList
  value tabs name value := "\n".toList ++ tabs ++ name ++ " = ".toList ++ value
  empty := some "pass".toList
  close := none
  closeAlwaysNewLine := false
  footer := "\n".toList

def ruby : Language where
  initialIndentLevel := 1
  header := "# DO NOT EDIT\n# Autogenerated by convert_protofile.py\n\nmodule RethinkDB".toList
  separator := []
  opening tabs name := "\n".toList ++ tabs ++ "module ".toList ++ name
  value tabs name value := "\n".toList ++ tabs ++ name ++ " = ".toList ++ value
  empty := none
  close := some "end".toList
  closeAlwaysNewLine := true
  footer := "\nend\n".toList

def javascript : Language where
  initialIndentLevel := 1
  header :=
    "// DO NOT EDIT\n// Autogenerated by convert_protofile.py\n\nmodule.exports = \x7b".toList
  separator := ",".toList
  opening tabs name := "\n".toList ++ tabs ++ name ++ ": \x7b".toList
  value tabs name value := "\n".toList ++ tabs ++ name ++ ": ".toList ++ value
  empty := none
  close := some "\x7d".toList
  closeAlwaysNewLine := false
  footer := "\n\x7d\n".toList

section Lines
variable (W : WordChars)

/-- What is behind the text at the start. -/
def after (start cs : List Char) : Option (List Char) :=
  if start.isPrefixOf cs then some (cs.drop start.length) else none

def wordThen (cs : List Char) : Option (List Char × List Char) :=
  if cs.takeWhile W.word = [] then none else some (cs.takeWhile W.word, cs.dropWhile W.word)

def skipSpace (cs : List Char) : List Char := cs.dropWhile Str.isSpace

/-- `\s*(message|enum) (?P<name>\w+) \x7b` -/
def messageRegex (line : List Char) : Option (List Char) := do
  let rest ← (after "message ".toList (skipSpace line)).or (after "enum ".toList (skipSpace line))
  let (name, rest) ← wordThen W rest
  (after " \x7b".toList rest).map fun _ => name

/-- `\s*(?P<name>\w+)\s*=\s*(?P<value>\w+)` -/
def valueRegex (line : List Char) : Option (List Char × List Char) := do
  let (name, rest) ← wordThen W (skipSpace line)
  let rest ← after "=".toList (skipSpace rest)
  let (value, _) ← wordThen W (skipSpace rest)
  return (name, value)

/-- `\s*\x7d` -/
def endRegex (line : List Char) : Option Unit :=
  (after "\x7d".toList (skipSpace line)).map fun _ => ()

inductive LineKind where
  | opening (name : List Char)
  | value (name value : List Char)
  | closing
  | other
  deriving Repr, DecidableEq

def classify (line : List Char) : LineKind :=
  match messageRegex W line, valueRegex W line, endRegex line with
  | some name, _, _ => .opening name
  | none, some (name, value), _ => .value name value
  | none, none, some () => .closing
  | none, none, none => .other

end Lines

/-- `int(value, 0)` of a value that starts with 0x. -/
def hexInt (value : List Char) : Option ℕ :=
  let digits := match value.drop 2 with
    | '_' :: digits => digits
    | digits => digits
  let groups := digits.splitOn '_'
  if groups.all (· ≠ []) then Hex.toNat groups.flatten else none

/-- A value as it is written; a `ValueError` where it is no number. -/
def writtenValue (value : List Char) : Option (List Char) :=
  if "0x".toList.isPrefixOf value then (hexInt value).map (Nat.toDigits 10) else some value

/-- The locals of `convertFile`. -/
structure Converter where
  indentLevel : ℤ
  lastIndentLevel : ℤ
  levelHasContent : Bool
  outputFile : List Char
  deriving Repr, DecidableEq

def tabs (level : ℤ) : List Char := List.replicate level.toNat '\t'

namespace Converter

def write (c : Converter) (text : List Char) : Converter :=
  { c with outputFile := c.outputFile ++ text }

def init (L : Language) : Converter :=
  ⟨L.initialIndentLevel, L.initialIndentLevel - 1, false, L.header⟩

def separate (L : Language) (c : Converter) : Converter :=
  if c.indentLevel = c.lastIndentLevel then c.write L.separator else c

def openBlock (L : Language) (name : List Char) (c : Converter) : Converter :=
  let c := c.separate L
  let c := if c.levelHasContent then c.write ('\n' :: tabs c.indentLevel) else c
  let c := c.write (L.opening (tabs c.indentLevel) name)
  { c with
    lastIndentLevel := c.indentLevel
    indentLevel := c.indentLevel + 1
    levelHasContent := false }

def putValue (L : Language) (name value : List Char) (c : Converter) : Option Converter := do
  let c := c.separate L
  let value ← writtenValue value
  let c := c.write (L.value (tabs c.indentLevel) name value)
  return { c with lastIndentLevel := c.indentLevel, levelHasContent := true }

/-- What stands for a block that has nothing. -/
def fill (L : Language) (c : Converter) : Converter :=
  match L.empty with
  | some text =>
    if c.levelHasContent then c
    else { c.write ('\n' :: tabs c.indentLevel ++ text) with lastIndentLevel := c.indentLevel }
  | none => c

def closeBlock (L : Language) (c : Converter) : Converter :=
  let c := c.fill L
  let c := match L.close with
    | some text =>
      let c := if c.indentLevel = c.lastIndentLevel ∨ L.closeAlwaysNewLine = true then
        c.write ('\n' :: tabs (c.indentLevel - 1)) else c
      c.write text
    | none => c
  { c with
    indentLevel := c.indentLevel - 1
    lastIndentLevel := c.indentLevel - 1
    levelHasContent := true }

def step (W : WordChars) (L : Language) (c : Converter) (line : List Char) : Option Converter :=
  match classify W line with
  | .opening name => some (c.openBlock L name)
  | .value name value => c.putValue L name value
  | .closing => some (c.closeBlock L)
  | .other => some c

def run (W : WordChars) (L : Language) (c : Converter) (lines : List (List Char)) :
    Option Converter :=
  lines.foldlM (step W L) c

end Converter

/-- What is written of the lines; `none` is the `ValueError` of a hexadecimal value. -/
def convertFile (W : WordChars) (L : Language) (lines : List (List Char)) : Option (List Char) :=
  ((Converter.init L).run W L lines).map fun c => c.outputFile ++ L.footer

/-! ### What the file says -/

/-- Definitions one after another, each block with those within. -/
inductive Decls where
  | nil
  | value (name value : List Char) (rest : Decls)
  | block (name : List Char) (inner rest : Decls)
  deriving Repr, DecidableEq

/-- The lines lay out the definitions, with lines of any other kind between them. -/
inductive Layout (W : WordChars) : Decls → List (List Char) → Prop
  | nil : Layout W .nil []
  | other {ds lines line} : classify W line = .other → Layout W ds lines →
      Layout W ds (line :: lines)
  | value {ds lines line name value} : classify W line = .value name value → Layout W ds lines →
      Layout W (.value name value ds) (line :: lines)
  | block {inner ds line line' name} (lines lines' : List (List Char)) :
      classify W line = .opening name → Layout W inner lines → classify W line' = .closing →
      Layout W ds lines' → Layout W (.block name inner ds) (line :: lines ++ line' :: lines')

/-- Every value can be written. -/
def Decls.Writable : Decls → Prop
  | .nil => True
  | .value _ text rest => (writtenValue text).isSome = true ∧ rest.Writable
  | .block _ inner rest => inner.Writable ∧ rest.Writable

/-- The definitions nested as they are in the file: a separator before each but the first, a blank
line before each block but the first definition, and a filler in a block that has nothing. -/
def render (L : Language) (level : ℤ) : Bool → Decls → List Char
  | _, .nil => []
  | first, .value name value rest =>
    (if first then [] else L.separator) ++
      L.value (tabs level) name ((writtenValue value).getD []) ++ render L level false rest
  | first, .block name inner rest =>
    (if first then [] else L.separator ++ '\n' :: tabs level) ++ L.opening (tabs level) name ++
      (if inner = .nil then
        (L.empty.elim [] fun text => '\n' :: tabs (level + 1) ++ text)
      else render L (level + 1) true inner) ++
      (L.close.elim [] fun text =>
        (if inner ≠ .nil ∨ L.empty.isSome = true ∨ L.closeAlwaysNewLine = true then
          '\n' :: tabs level else []) ++ text) ++
      render L level false rest

namespace Converter
variable {W : WordChars} {L : Language} {c : Converter}

/-- Between the definitions of one level, `first` before the first of them. -/
def between (level : ℤ) (first : Bool) (out : List Char) : Converter :=
  ⟨level, if first then level - 1 else level, !first, out⟩

theorem run_cons (line : List Char) (lines : List (List Char)) :
    c.run W L (line :: lines) = (c.step W L line).bind fun c => c.run W L lines := rfl

theorem run_append (lines lines' : List (List Char)) :
    c.run W L (lines ++ lines') = (c.run W L lines).bind fun c => c.run W L lines' :=
  List.foldlM_append

theorem separate_between (level : ℤ) (first : Bool) (out : List Char) :
    (between level first out).separate L =
      between level first (out ++ if first then [] else L.separator) := by
  cases first with
  | false => simp [separate, between, write]
  | true =>
    have hne : level ≠ level - 1 := by omega
    simp [separate, between, hne]

theorem openBlock_between (level : ℤ) (first : Bool) (out name : List Char) :
    (between level first out).openBlock L name = between (level + 1) true
      (out ++ ((if first then [] else L.separator ++ '\n' :: tabs level) ++
        L.opening (tabs level) name)) := by
  rw [openBlock, separate_between]
  cases first <;> simp [between, write]

theorem putValue_between (level : ℤ) (first : Bool)
    (out name : List Char) {value written : List Char}
    (hwritten : writtenValue value = some written) :
    (between level first out).putValue L name value = some (between level false
      (out ++ ((if first then [] else L.separator) ++ L.value (tabs level) name written))) := by
  rw [putValue, separate_between, hwritten]
  cases first <;> simp [between, write]

/-- A block is closed on a line of its own unless nothing was written in it. -/
theorem closeBlock_between (level : ℤ) (empty : Bool) (out : List Char) :
    (between (level + 1) empty out).closeBlock L = between level false
      (out ++
        ((if empty then L.empty.elim [] fun text => '\n' :: tabs (level + 1) ++ text else []) ++
        L.close.elim [] fun text =>
          (if empty = false ∨ L.empty.isSome = true ∨ L.closeAlwaysNewLine = true then
            '\n' :: tabs level else []) ++ text)) := by
  cases empty with
  | false =>
    cases hempty : L.empty <;> cases hclose : L.close <;>
      simp [closeBlock, fill, between, write, hempty, hclose]
  | true =>
    have hne : level + 1 ≠ level := by omega
    cases hempty : L.empty <;> cases hclose : L.close <;> cases halways : L.closeAlwaysNewLine <;>
      simp [closeBlock, fill, between, write, hempty, hclose, halways, hne]

/-- The lines write their definitions. -/
theorem run_layout {ds : Decls} {lines : List (List Char)} (h : Layout W ds lines)
    (hds : ds.Writable)
    (level : ℤ) (first : Bool) (out : List Char) :
    (between level first out).run W L lines =
      some (between level (first && ds = .nil) (out ++ render L level first ds)) := by
  induction h generalizing level first out with
  | nil => simp [run, render]
  | @other ds lines line hother hlines ih =>
    rw [run_cons, step, hother]
    exact ih hds level first out
  | @value ds lines line name value hvalue hlines ih =>
    obtain ⟨written, hwritten⟩ := Option.isSome_iff_exists.mp hds.1
    rw [run_cons, step, hvalue]
    dsimp only
    rw [putValue_between level first out name hwritten, Option.bind_some, ih hds.2, render,
      hwritten]
    simp
  | @block inner ds line line' name lines lines' hopening hinner hclosing hds' ihinner ih =>
    rw [List.cons_append, run_cons, step, hopening]
    dsimp only
    rw [Option.bind_some, openBlock_between, run_append, ihinner hds.1, Option.bind_some, run_cons,
      step, hclosing]
    dsimp only
    rw [Option.bind_some, Bool.true_and, closeBlock_between, ih hds.2, render]
    by_cases hnil : inner = .nil
    · simp [hnil, render]
    · simp [hnil]

end Converter

/-- What the file writes, whatever the language. -/
theorem convertFile_layout {W : WordChars} {L : Language} {ds : Decls} {lines : List (List Char)}
    (h : Layout W ds lines) (hds : ds.Writable) :
    convertFile W L lines =
      some (L.header ++ render L L.initialIndentLevel true ds ++ L.footer) := by
  have hrun := Converter.run_layout (L := L) h hds L.initialIndentLevel true L.header
  rw [convertFile]
  change ((Converter.between L.initialIndentLevel true L.header).run W L lines).map _ = _
  rw [hrun]
  rfl

/-! ### The Python module -/

section Python
open PyModule

/-- The number that a value stands for. -/
def constantOf (value : List Char) : Option ℕ :=
  if "0x".toList.isPrefixOf value then hexInt value else decimal value

namespace Decls

def constants : Decls → Option Bindings
  | .nil => some .nil
  | .value name text rest => do
    let value ← constantOf text
    let rest ← rest.constants
    return .constant name value rest
  | .block name inner rest => do
    let inner ← inner.constants
    let rest ← rest.constants
    return .cls name inner rest

theorem eq_nil_of_constants {ds : Decls} (h : ds.constants = some .nil) : ds = .nil := by
  cases ds with
  | nil => rfl
  | value name text rest =>
    obtain ⟨value, -, hrest⟩ := Option.bind_eq_some_iff.mp h
    obtain ⟨bs, -, hsome⟩ := Option.bind_eq_some_iff.mp hrest
    cases hsome
  | block name inner rest =>
    obtain ⟨bs, -, hrest⟩ := Option.bind_eq_some_iff.mp h
    obtain ⟨bs', -, hsome⟩ := Option.bind_eq_some_iff.mp hrest
    cases hsome

def Named : Decls → Prop
  | .nil => True
  | .value name _ rest => Identifier name ∧ rest.Named
  | .block name inner rest => Identifier name ∧ inner.Named ∧ rest.Named

end Decls

def pyLines (indent : ℕ) : Bool → Decls → List (List Char)
  | _, .nil => []
  | _, .value name value rest =>
    (List.replicate indent '\t' ++ (name ++ " = ".toList ++ (writtenValue value).getD [])) ::
      pyLines indent false rest
  | first, .block name inner rest =>
    (if first then [] else [List.replicate indent '\t']) ++
      (List.replicate indent '\t' ++ ("class ".toList ++ name ++ ":".toList)) ::
        ((if inner = .nil then [List.replicate (indent + 1) '\t' ++ "pass".toList]
          else pyLines (indent + 1) true inner) ++ pyLines indent false rest)

theorem render_python (indent : ℕ) (first : Bool) (ds : Decls) :
    render python indent first ds = (pyLines indent first ds).flatMap ('\n' :: ·) := by
  have htabs : tabs (indent : ℤ) = List.replicate indent '\t' := by simp [tabs]
  induction ds generalizing indent first with
  | nil => rfl
  | value name value rest ih =>
    rw [render, pyLines, ih indent false htabs, htabs]
    cases first <;> simp [python]
  | block name inner rest ihinner ih =>
    have htabs' : tabs ((indent + 1 : ℕ) : ℤ) = List.replicate (indent + 1) '\t' := by simp [tabs]
    have hinner := ihinner (indent + 1) true htabs'
    push_cast at hinner htabs'
    rw [render, pyLines, ih indent false htabs, hinner, htabs, htabs']
    cases first <;> by_cases hnil : inner = .nil <;> simp [python, hnil]

theorem decimal_writtenValue {text : List Char} {value : ℕ} (h : constantOf text = some value) :
    ∃ written, writtenValue text = some written ∧ decimal written = some value := by
  unfold constantOf at h
  unfold writtenValue
  split at h
  · rename_i hhex
    rw [if_pos hhex, h]
    exact ⟨_, rfl, decimal_toDigits value⟩
  · rename_i hhex
    rw [if_neg hhex]
    exact ⟨text, rfl, h⟩

/-- Read back, the lines are the statements of the constants. -/
theorem statements_pyLines {ds : Decls} {bs : Bindings} (hnamed : ds.Named)
    (hconstants : ds.constants = some bs) (indent : ℕ) (first : Bool) :
    statements (pyLines indent first ds) = some (suite indent bs) := by
  induction ds generalizing indent first bs with
  | nil =>
    rw [← Option.some.inj hconstants]
    rfl
  | value name text rest ih =>
    obtain ⟨value, hvalue, hrest⟩ := Option.bind_eq_some_iff.mp hconstants
    obtain ⟨bs, hbs, hsome⟩ := Option.bind_eq_some_iff.mp hrest
    obtain ⟨written, hwritten, hdecimal⟩ := decimal_writtenValue hvalue
    rw [← Option.some.inj hsome, pyLines, hwritten]
    exact statements_cons (readLine_assign hnamed.1 hdecimal) (ih hnamed.2 hbs indent false)
  | block name inner rest ihinner ih =>
    obtain ⟨bs, hbs, hrest⟩ := Option.bind_eq_some_iff.mp hconstants
    obtain ⟨bs', hbs', hsome⟩ := Option.bind_eq_some_iff.mp hrest
    obtain ⟨hname, hnamed, hnamed'⟩ := hnamed
    have hbody : statements (if inner = .nil then
      [List.replicate (indent + 1) '\t' ++ "pass".toList]
        else pyLines (indent + 1) true inner) = some (body indent bs) := by
      unfold body
      by_cases hnil : inner = .nil
      · subst hnil
        rw [← Option.some.inj hbs, if_pos rfl, if_pos rfl]
        exact statements_cons readLine_pass rfl
      · have hbs' : bs ≠ .nil := fun h => hnil (Decls.eq_nil_of_constants (h ▸ hbs))
        rw [if_neg hnil, if_neg hbs']
        exact ihinner hnamed hbs (indent + 1) true
    have hblock := statements_cons (readLine_cls indent hname)
      (statements_append hbody (ih hnamed' hbs' indent false))
    rw [← Option.some.inj hsome, pyLines]
    cases first with
    | true => exact hblock
    | false => exact (statements_blank readLine_blank).trans hblock

/-- No line is broken. -/
theorem newline_pyLines {ds : Decls} {bs : Bindings} (hnamed : ds.Named)
    (hconstants : ds.constants = some bs) (indent : ℕ) (first : Bool) :
    ∀ line ∈ pyLines indent first ds, '\n' ∉ line := by
  induction ds generalizing indent first bs with
  | nil => simp [pyLines]
  | value name text rest ih =>
    obtain ⟨value, hvalue, hrest⟩ := Option.bind_eq_some_iff.mp hconstants
    obtain ⟨bs, hbs, -⟩ := Option.bind_eq_some_iff.mp hrest
    obtain ⟨written, hwritten, hdecimal⟩ := decimal_writtenValue hvalue
    have hdigits : '\n' ∉ written := fun hmem => by cases isDigit_of_decimal hdecimal '\n' hmem
    rw [pyLines, hwritten, List.forall_mem_cons]
    refine ⟨?_, ih hnamed.2 hbs indent false⟩
    simp [hdigits, hnamed.1.newline]
  | block name inner rest ihinner ih =>
    obtain ⟨bs, hbs, hrest⟩ := Option.bind_eq_some_iff.mp hconstants
    obtain ⟨bs', hbs', -⟩ := Option.bind_eq_some_iff.mp hrest
    obtain ⟨hname, hnamed, hnamed'⟩ := hnamed
    have hheader : '\n' ∉ List.replicate indent '\t' ++
        ("class ".toList ++ name ++ ":".toList) := by
      simp [hname.newline]
    have hbody : ∀ line ∈ (if inner = .nil then [List.replicate (indent + 1) '\t' ++ "pass".toList]
        else pyLines (indent + 1) true inner), '\n' ∉ line := by
      split
      · rw [List.forall_mem_singleton]
        simp
      · exact ihinner hnamed hbs (indent + 1) true
    rw [pyLines, List.forall_mem_append, List.forall_mem_cons, List.forall_mem_append]
    refine ⟨?_, hheader, hbody, ih hnamed' hbs' indent false⟩
    cases first with
    | true => simp
    | false =>
      intro line hline
      rw [if_neg (by simp), List.mem_singleton] at hline
      rw [hline]
      simp

theorem Decls.writable_of_constants {ds : Decls} {bs : Bindings} (h : ds.constants = some bs) :
    ds.Writable := by
  induction ds generalizing bs with
  | nil => trivial
  | value name text rest ih =>
    obtain ⟨value, hvalue, hrest⟩ := Option.bind_eq_some_iff.mp h
    obtain ⟨bs, hbs, -⟩ := Option.bind_eq_some_iff.mp hrest
    obtain ⟨written, hwritten, -⟩ := decimal_writtenValue hvalue
    exact ⟨by rw [hwritten]; rfl, ih hbs⟩
  | block name inner rest ihinner ih =>
    obtain ⟨bs, hbs, hrest⟩ := Option.bind_eq_some_iff.mp h
    obtain ⟨bs', hbs', -⟩ := Option.bind_eq_some_iff.mp hrest
    exact ⟨ihinner hbs, ih hbs'⟩

/-- The Python module of a .proto file binds the constants of the file, nested as they are there. -/
theorem convertFile_python {W : WordChars} {ds : Decls} {lines : List (List Char)} {bs : Bindings}
    (hlayout : Layout W ds lines) (hnamed : ds.Named) (hconstants : ds.constants = some bs) :
    (convertFile W python lines).bind readModule = some bs := by
  have hlines : python.header ++ render python python.initialIndentLevel true ds ++ python.footer =
      "# DO NOT EDIT".toList ++ ("# Autogenerated by convert_protofile.py".toList ::
        [] :: (pyLines 0 true ds ++ [[]])).flatMap ('\n' :: ·) := by
    have hrender := render_python 0 true ds
    rw [Nat.cast_zero] at hrender
    have hheader : python.header = "# DO NOT EDIT".toList ++
        '\n' :: ("# Autogenerated by convert_protofile.py".toList ++ ['\n']) := rfl
    change _ ++ render python 0 true ds ++ "\n".toList = _
    rw [hrender, hheader]
    simp
  have hnewlines := newline_pyLines hnamed hconstants 0 true
  rw [convertFile_layout hlayout (Decls.writable_of_constants hconstants), Option.bind_some,
    readModule,
    hlines, Str.splitOn_flatMap, statements_blank rfl, statements_blank rfl, statements_blank rfl,
    statements_append (statements_pyLines hnamed hconstants 0 true) rfl, List.append_nil]
  · exact readSuite_suite 0 bs
  · decide
  · rw [List.forall_mem_cons, List.forall_mem_cons, List.forall_mem_append,
      List.forall_mem_singleton]
    exact ⟨by decide, by simp, hnewlines, by simp⟩

end Python

def asciiWords : WordChars where
  word := PyModule.isNameChar
  ascii _ _ := rfl
  not_space := by
    intro c hc
    unfold Str.isSpace at hc
    simp only [decide_eq_true_eq, List.mem_cons, List.not_mem_nil, or_false] at hc
    rw [PyModule.isNameChar, Bool.or_eq_false_iff, beq_eq_false_iff_ne, ← Bool.not_eq_true]
    constructor
    · rw [Url.isAlphanum_iff, Url.isUpper_iff, Url.isLower_iff, Url.isDigit_iff]
      omega
    · intro h
      rw [h] at hc
      revert hc
      decide

/-- A message with an enumeration and a field, and an empty one. -/
def sampleLines : List (List Char) :=
  ["// The types.\n", "message Term \x7b\n", "    enum TermType \x7b\n",
    "        DATUM = 1; // any\n",
    "        MAKE_ARRAY = 0x1f;\n", "    \x7d\n", "    optional TermType type = 1;\n", "\x7d\n",
    "message Nothing \x7b\n", "\x7d\n"].map String.toList

def sampleDecls : Decls :=
  .block "Term".toList (.block "TermType".toList (.value "DATUM".toList "1".toList
    (.value "MAKE_ARRAY".toList "0x1f".toList .nil)) .nil) (.block "Nothing".toList .nil .nil)

theorem convertFile_python_sample :
    (convertFile asciiWords python sampleLines).bind PyModule.readModule =
    some (.cls "Term".toList (.cls "TermType".toList (.constant "DATUM".toList 1
      (.constant "MAKE_ARRAY".toList 31 .nil)) .nil) (.cls "Nothing".toList .nil .nil)) := by
  have hinner : Layout asciiWords (.block "TermType".toList (.value "DATUM".toList "1".toList
      (.value "MAKE_ARRAY".toList "0x1f".toList .nil)) .nil) (sampleLines.drop 2 |>.take 5) :=
    .block [_, _] [_] rfl (.value rfl (.value rfl .nil)) rfl (.other rfl .nil)
  have hlayout : Layout asciiWords sampleDecls sampleLines :=
    .other rfl (.block (sampleLines.drop 2 |>.take 5) [_, _] rfl hinner rfl
      (.block [] [] rfl .nil rfl .nil))
  have hnamed : sampleDecls.Named :=
    ⟨by decide, ⟨by decide, ⟨by decide, by decide, trivial⟩, trivial⟩, by decide, trivial, trivial⟩
  exact convertFile_python hlayout hnamed rfl

end RethinkDB.Scripts
