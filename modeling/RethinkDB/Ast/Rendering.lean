import Mathlib.Data.List.DropRight
import RethinkDB.Ast.Carets
import RethinkDB.Net.Protocol

/-! `str()` of the errors of a server: `ReqlError` of `rethinkdb/errors.py`. -/
namespace RethinkDB.Ast.Printer
open RethinkDB.Lib

/-! ### Queries that are printed -/

section Composed
variable {α : Type} {repr : List Char → List Char}

def T.isStr : T α → Bool
  | .str _ => true
  | _ => false

/-- `compose` returns a `str`, and no `T`. -/
def Class.isStr : Class → Bool
  | datum _ | var | implicitVar => true
  | _ => false

/-- `compose` finds in the arguments of a class what it looks for. -/
def Class.accepts (selfArgs : List Class) : Class → Bool
  | var => (selfArgs.take 1).any isStr
  | not | funCall | table => selfArgs ≠ []
  | boolOper op isInfix => !isInfix || op.stInfix.isSome
  | bracket _ bracketOperator => !bracketOperator || selfArgs ≠ []
  | slice bracketOperator => !bracketOperator || 3 ≤ selfArgs.length
  | func _ => 2 ≤ selfArgs.length
  | datum _ | makeArray | makeObj | implicitVar | biOper _ | topLevel _ | method _ | binaryData =>
    true

mutual

/-- No `compose` in the query raises. -/
def printable : Term → Bool
  | .node cls args optargs =>
    printableArgs args && (printableOptargs optargs && cls.accepts (args.map Term.cls))

def printableArgs : List Term → Bool
  | [] => true
  | arg :: args => printable arg && printableArgs args

def printableOptargs : List (List Char × Term) → Bool
  | [] => true
  | (_, arg) :: optargs => printable arg && printableOptargs optargs

end

theorem composeMethod_isStr {statement : String} {selfArgs : List Class} {args : List (T α)}
    {optargs : List (List Char × T α)} :
    Decided true (T.isStr · = false) (composeMethod statement selfArgs args optargs) := by
  unfold composeMethod
  split <;> exact .returns rfl

/-- What becomes of a class whose arguments are composed. -/
theorem compose_accepts (cls : Class) {selfArgs : List Class} {args : List (T α)}
    (optargs : List (List Char × T α))
    (hargs : List.Forall₂ (fun cls t => T.isStr t = cls.isStr) selfArgs args) :
    Decided (cls.accepts selfArgs) (T.isStr · = cls.isStr)
      (compose repr concatVar cls selfArgs args optargs) := by
  cases cls with
  | datum data => exact .returns rfl
  | makeArray => exact .returns rfl
  | makeObj => exact .returns rfl
  | implicitVar => exact .returns rfl
  | biOper op => exact .returns rfl
  | topLevel statement => exact .returns rfl
  | binaryData => exact .returns rfl
  | method statement => exact composeMethod_isStr
  | var =>
    cases hargs with
    | nil => exact .raises _
    | @cons cls arg selfArgs args harg hargs =>
      have haccepts : Class.var.accepts (cls :: selfArgs) = arg.isStr := by
        simp [Class.accepts, harg]
      rw [haccepts]
      cases arg with
      | str s => exact .returns rfl
      | list items => exact .raises _
      | seq ts intsp => exact .raises _
  | not =>
    cases hargs with
    | nil => exact .raises _
    | cons harg hargs => exact .returns rfl
  | funCall =>
    cases hargs with
    | nil => exact .raises _
    | cons hfn hargs =>
      cases hargs with
      | nil => exact .returns rfl
      | cons harg hargs =>
        cases hargs with
        | nil => exact .returns rfl
        | cons hthird hargs => exact .returns rfl
  | table =>
    cases hargs with
    | nil => exact .raises _
    | @cons cls arg selfArgs args harg hargs =>
      simp only [Class.accepts, compose]
      cases cls.isDB with
      | true => exact .returns rfl
      | false => exact .returns rfl
  | boolOper op isInfix =>
    cases isInfix with
    | false => exact .returns rfl
    | true =>
      simp only [Class.accepts, compose, if_true]
      cases op.stInfix with
      | none => exact .raises _
      | some c => exact .returns rfl
  | bracket statement bracketOperator =>
    cases bracketOperator with
    | false => exact composeMethod_isStr
    | true =>
      cases hargs with
      | nil => exact .raises _
      | cons harg hargs => exact .returns rfl
  | slice bracketOperator =>
    cases bracketOperator with
    | false => exact composeMethod_isStr
    | true =>
      cases hargs with
      | nil => exact .raises _
      | cons harg hargs =>
        cases hargs with
        | nil => exact .raises _
        | cons hstart hargs =>
          cases hargs with
          | nil => exact .raises _
          | cons hstop hargs => exact .returns rfl
  | func vrs =>
    cases hargs with
    | nil => exact .raises _
    | cons harg hargs =>
      cases hargs with
      | nil => exact .raises _
      | cons hbody hargs => exact .returns rfl

mutual

theorem composeTerm_printable (term : Term) :
    Decided (printable term) (T.isStr · = term.cls.isStr) (composeTerm (α := α) repr term) := by
  cases term with
  | node cls args optargs =>
    unfold printable composeTerm
    refine .bind (composeArgs_printable args) fun composed hargs => ?_
    refine .bind (composeOptargs_printable optargs) fun composedOptargs _ => ?_
    exact compose_accepts cls composedOptargs hargs

theorem composeArgs_printable (args : List Term) :
    Decided (printableArgs args)
      (List.Forall₂ (fun cls t => T.isStr t = cls.isStr) (args.map Term.cls))
      (composeArgs (α := α) repr args) := by
  cases args with
  | nil => exact .returns .nil
  | cons arg args =>
    unfold printableArgs composeArgs
    refine .bind (composeTerm_printable arg) fun composed harg => ?_
    rw [← Bool.and_true (printableArgs args)]
    exact .bind (composeArgs_printable args) fun ts hargs => .returns (.cons harg hargs)

theorem composeOptargs_printable (optargs : List (List Char × Term)) :
    Decided (printableOptargs optargs) (fun _ => True)
      (composeOptargs (α := α) repr optargs) := by
  cases optargs with
  | nil => exact .returns trivial
  | cons o optargs =>
    unfold printableOptargs composeOptargs
    refine .bind (composeTerm_printable o.2) fun composed _ => ?_
    rw [← Bool.and_true (printableOptargs optargs)]
    exact .bind (composeOptargs_printable optargs) fun _ _ => .returns trivial

end

theorem composeTerm_iff (root : Term) : (∃ t : T Token, composeTerm repr root = .ok t) ↔
    printable root = true := (composeTerm_printable root).returns_iff

theorem printQuery_iff (root : Term) : (∃ query, printQuery repr root = .ok query) ↔
    printable root = true := by
  rw [← composeTerm_iff root]
  constructor
  · intro ⟨_, h⟩
    obtain ⟨t, ht, -⟩ := bind_eq_ok.mp h
    exact ⟨t, ht⟩
  · intro ⟨t, ht⟩
    exact ⟨_, bind_eq_ok.mpr ⟨t, ht, rfl⟩⟩

/-- The carets of a query that is printed are printed, but for frames that lead into the argument of
a variable. -/
theorem printCarrots_iff {root : Term} (hroot : printable root = true) (frames : List Frame) :
    (∃ carrots, printCarrots repr root frames = .ok carrots) ↔ entersVar frames root = false := by
  constructor
  · intro ⟨_, h⟩
    obtain ⟨carrots, hcarrots, -⟩ := bind_eq_ok.mp h
    by_contra hvar
    exact composeCarrots_entersVar (Bool.of_not_eq_false hvar) carrots hcarrots
  · intro hvar
    obtain ⟨t, ht⟩ := (composeTerm_iff root).mpr hroot
    obtain ⟨carrots, hcarrots, -⟩ := composeCarrots_returns hvar t ht
    exact ⟨_, bind_eq_ok.mpr ⟨carrots, hcarrots, rfl⟩⟩

end Composed

/-! ### `ReqlError` -/

/-- `queryPrinter` is the root and the frames of the `query_printer`, where `__init__` sets one. -/
structure ReqlError where
  message : List Char
  frames : Option (List Frame)
  queryPrinter : Option (Term × List Frame)

namespace ReqlError

def init (message : List Char) (term : Option Term) (frames : Option (List Frame)) : ReqlError where
  message := message
  frames := frames
  queryPrinter := match term, frames with
    | some term, some frames => some (term, frames)
    | _, _ => none

/-- `message.rstrip(".")`. -/
def rstrip (message : List Char) : List Char := message.rdropWhile (· = '.')

def str (repr : List Char → List Char) (e : ReqlError) : Except PrintExn (List Char) :=
  match e.frames with
  | none => .ok e.message
  | some _ => match e.queryPrinter with
    | none => .error .attribute
    | some (root, frames) => do
      let query ← printQuery repr root
      let carrots ← printCarrots repr root frames
      return rstrip e.message ++ " in:\n".toList ++ query ++ ['\n'] ++ carrots

theorem str_iff {repr : List Char → List Char} (message : List Char) (term : Option Term)
    (frames : Option (List Frame)) :
    (∃ s, (init message term frames).str repr = .ok s) ↔
      ∀ fs, frames = some fs → ∃ root, term = some root ∧ printable root = true ∧
        entersVar fs root = false := by
  cases frames with
  | none => simp [str, init]
  | some fs =>
    cases term with
    | none => simp [str, init]
    | some root =>
      have hstr : (∃ s, (init message (some root) (some fs)).str repr = .ok s) ↔
          (∃ query, printQuery repr root = .ok query) ∧
            ∃ carrots, printCarrots repr root fs = .ok carrots := by
        simp only [str, init, bind_eq_ok]
        constructor
        · intro ⟨_, query, hquery, carrots, hcarrots, _⟩
          exact ⟨⟨query, hquery⟩, carrots, hcarrots⟩
        · intro ⟨⟨query, hquery⟩, carrots, hcarrots⟩
          exact ⟨_, query, hquery, carrots, hcarrots, rfl⟩
      rw [hstr, printQuery_iff]
      constructor
      · intro ⟨hroot, hcarrots⟩ fs' hfs
        cases hfs
        exact ⟨root, rfl, hroot, (printCarrots_iff hroot fs).mp hcarrots⟩
      · intro h
        obtain ⟨root', hroot', hprintable, hvar⟩ := h fs rfl
        cases hroot'
        exact ⟨hprintable, (printCarrots_iff hprintable fs).mpr hvar⟩

end ReqlError

/-! ### `make_error` -/

section Response
open Net

variable {V : Type}

/-- What the values that pass through the driver are. -/
structure Reading (V : Type) where
  text : V → List Char
  term : V → Term
  frames : V → List Frame

/-- The exceptions that `make_error` returns; `number` is that of a response type. -/
def Reading.error (reading : Reading V) (number : ResponseType → ℤ) : Exn V → Option ReqlError
  | .reql _ message term backtrace =>
    some (.init (reading.text message) (term.map reading.term) (backtrace.map reading.frames))
  | .unknownResponseType type =>
    let message := "Unknown Response type " ++ toString (number type) ++
      " encountered in a response."
    some (.init message.toList none none)
  | _ => none

/-- `make_error` returns an exception, and `str` of that a text. -/
def Renders (repr : List Char → List Char) (reading : Reading V) (number : ResponseType → ℤ)
    (res : Response V) (query : Query V) : Prop :=
  ∃ e error s, res.makeError query = .ok e ∧ reading.error number e = some error ∧
    error.str repr = .ok s

def isErrorType : ResponseType → Bool
  | .clientError | .compileError | .runtimeError => true
  | _ => false

variable {repr : List Char → List Char} {reading : Reading V} {number : ResponseType → ℤ}

variable (reading number) in
theorem makeError_data (res : Response V) (message : V) (data : List V) (query : Query V) :
    ∃ e error, ({ res with data := message :: data } : Response V).makeError query = .ok e ∧
      reading.error number e = some error ∧
      if isErrorType res.type then
        error = .init (reading.text message) (query.term.map reading.term)
          (res.backtrace.map reading.frames)
      else error.frames = none := by
  unfold Response.makeError
  cases res.type with
  | clientError | compileError | runtimeError => exact ⟨_, _, rfl, rfl, rfl⟩
  | successAtom | successSequence | successPartial | waitComplete | serverInfo | other n =>
    exact ⟨_, _, rfl, rfl, rfl⟩

/-- The errors that are rendered: those of an unknown type, those without a backtrace, and those of
a term that is printed, with a backtrace that does not lead into the argument of a variable. -/
theorem renders_iff (res : Response V) (message : V) (data : List V) (query : Query V) :
    Renders repr reading number { res with data := message :: data } query ↔
      (isErrorType res.type = true → ∀ backtrace, res.backtrace = some backtrace →
        ∃ term, query.term = some term ∧ printable (reading.term term) = true ∧
          entersVar (reading.frames backtrace) (reading.term term) = false) := by
  obtain ⟨e, error, he, herror, h⟩ := makeError_data reading number res message data query
  have hrenders : Renders repr reading number { res with data := message :: data } query ↔
      ∃ s, error.str repr = .ok s := by
    constructor
    · intro ⟨e', error', s, he', herror', hs⟩
      rw [he] at he'
      cases he'
      rw [herror] at herror'
      cases herror'
      exact ⟨s, hs⟩
    · intro ⟨s, hs⟩
      exact ⟨e, error, s, he, herror, hs⟩
  rw [hrenders]
  cases htype : isErrorType res.type with
  | false =>
    rw [htype] at h
    simp [ReqlError.str, show error.frames = none from h]
  | true =>
    rw [htype] at h
    rw [show error = _ from h, ReqlError.str_iff]
    simp

/-- A `NOREPLY_WAIT` that fails with a backtrace: `ReqlError` has frames and no printer. -/
theorem noreplyWait_mute : ¬Renders (fun key => key)
    (⟨fun _ => "No.".toList, fun _ => .node .implicitVar [] [], fun _ => []⟩ : Reading Unit)
    (fun _ => 18) ⟨⟨.runtimeError, [()], some (), none, some .internal⟩, 1⟩
    ⟨.noreplyWait, 1, none, .ok [], none, false⟩ := by
  intro ⟨e, error, s, he, herror, hs⟩
  cases he
  cases herror
  cases hs

end Response
end RethinkDB.Ast.Printer
