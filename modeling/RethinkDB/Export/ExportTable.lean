import Mathlib.Data.Nat.Notation

/-! `export_table`: one process for each table, which adds to the counters that all of them share. -/
namespace RethinkDB.Export.Statistics

/-- The tables as the server describes them. A server before 2.3.7 has no write hooks. -/
structure Setting (ι : Type) where
  indexes : ι → ℕ
  writeHook : ι → Bool
  hasWriteHooks : Bool
  clients : ℕ
  known : hasWriteHooks = false → ∀ i, writeHook i = false

/-- `unchecked`: the version check, outside the `try`, has raised. -/
inductive How where
  | done | failed | bailed | unchecked
  deriving Repr, DecidableEq

/-- How far `export_table` has come; `sindex` and `hook` have read the counter and not written it
back. A process is `finishing` while it waits for its writer. -/
inductive Stage where
  | waiting | checking | starting
  | sindex (read : ℕ)
  | hooks
  | hook (read : ℕ)
  | writing | exporting
  | finishing (how : How)
  | dead (how : How)
  deriving Repr, DecidableEq

/-- The process of a table; `progress` is its `progress_info[0]`. -/
structure Proc where
  stage : Stage
  readRows : ℕ
  progress : ℕ
  deriving Repr, DecidableEq

structure Shared where
  sindexCounter : ℕ
  hookCounter : ℕ
  errorQueue : List String
  exitEvent : Bool
  deriving Repr, DecidableEq

/-- What a process does; `writerFail` is its writer's exception. -/
inductive Action where
  | next | row | done | bail
  | fail (message : String)
  | writerFail (message : String)
  | uncheck | exit
  deriving Repr, DecidableEq

def Stage.inTry : Stage → Bool
  | .starting | .sindex _ | .hooks | .hook _ | .writing | .exporting => true
  | _ => false

def Stage.hasWriter : Stage → Bool
  | .exporting | .finishing _ => true
  | _ => false

def Proc.put (p : Proc) : Proc :=
  { p with
    readRows := p.readRows + 1
    progress := if (p.readRows + 1) % 20 = 0 then p.readRows + 1 else p.progress }

variable {ι : Type}

/-- A step of `export_table`. The first `+=` on the index counter is a read and a later write, the
second is under the lock; the hook counter is written without it. -/
def exportTable (X : Setting ι) (i : ι) (sh : Shared) (p : Proc) :
    Action → Option (Proc × Shared)
  | .next => match p.stage with
    | .checking => some ({ p with stage := .starting }, sh)
    | .starting => some ({ p with stage := .sindex sh.sindexCounter }, sh)
    | .sindex read =>
      some ({ p with stage := .hooks }, { sh with sindexCounter := read + X.indexes i })
    | .hooks =>
      if X.hasWriteHooks && X.writeHook i then
        some ({ p with stage := .hook sh.hookCounter }, sh)
      else some ({ p with stage := .writing }, sh)
    | .hook read => some ({ p with stage := .writing }, { sh with hookCounter := read + 1 })
    | .writing =>
      some ({ p with stage := .exporting },
        { sh with sindexCounter := sh.sindexCounter + X.indexes i })
    | _ => none
  | .row => if p.stage = .exporting then some (p.put, sh) else none
  | .done =>
    if p.stage = .exporting then
      some ({ p with stage := .finishing .done, progress := p.readRows }, sh)
    else none
  | .bail =>
    if p.stage = .exporting ∧ sh.exitEvent then
      some ({ p with stage := .finishing .bailed }, sh)
    else none
  | .fail message =>
    if p.stage.inTry then
      some ({ p with stage := .finishing .failed },
        { sh with errorQueue := sh.errorQueue ++ [message] })
    else none
  | .writerFail message =>
    if p.stage.hasWriter then some (p, { sh with errorQueue := sh.errorQueue ++ [message] })
    else none
  | .uncheck =>
    if p.stage = .checking then some ({ p with stage := .dead .unchecked }, sh) else none
  | .exit => match p.stage with
    | .finishing how => some ({ p with stage := .dead how }, sh)
    | _ => none

def Stage.isAlive : Stage → Bool
  | .dead _ => false
  | _ => true

/-! ### What a process can do -/

variable (X : Setting ι) (i : ι) (sh : Shared) (p : Proc) in
inductive Moves : Action → Proc → Shared → Prop
  | checked : p.stage = .checking → Moves .next { p with stage := .starting } sh
  | read : p.stage = .starting → Moves .next { p with stage := .sindex sh.sindexCounter } sh
  | counted (r : ℕ) : p.stage = .sindex r →
    Moves .next { p with stage := .hooks } { sh with sindexCounter := r + X.indexes i }
  | asked : p.stage = .hooks → X.writeHook i = true →
    Moves .next { p with stage := .hook sh.hookCounter } sh
  | unhooked : p.stage = .hooks → X.writeHook i = false → Moves .next { p with stage := .writing } sh
  | hooked (r : ℕ) : p.stage = .hook r →
    Moves .next { p with stage := .writing } { sh with hookCounter := r + 1 }
  | written : p.stage = .writing →
    Moves .next { p with stage := .exporting }
      { sh with sindexCounter := sh.sindexCounter + X.indexes i }
  | row : p.stage = .exporting → Moves .row p.put sh
  | done : p.stage = .exporting →
    Moves .done { p with stage := .finishing .done, progress := p.readRows } sh
  | bailed : p.stage = .exporting → sh.exitEvent = true →
    Moves .bail { p with stage := .finishing .bailed } sh
  | failed (message : String) : p.stage.inTry = true →
    Moves (.fail message) { p with stage := .finishing .failed }
      { sh with errorQueue := sh.errorQueue ++ [message] }
  | writerFailed (message : String) : p.stage.hasWriter = true →
    Moves (.writerFail message) p { sh with errorQueue := sh.errorQueue ++ [message] }
  | unchecked : p.stage = .checking → Moves .uncheck { p with stage := .dead .unchecked } sh
  | exited (how : How) : p.stage = .finishing how → Moves .exit { p with stage := .dead how } sh

theorem exportTable_moves {X : Setting ι} {i : ι} {sh sh' : Shared} {p p' : Proc} {a : Action}
    (h : exportTable X i sh p a = some (p', sh')) : Moves X i sh p a p' sh' := by
  cases a with
  | next =>
    simp only [exportTable] at h
    split at h
    · rename_i hstage
      cases h
      exact .checked hstage
    · rename_i hstage
      cases h
      exact .read hstage
    · rename_i r hstage
      cases h
      exact .counted r hstage
    · rename_i hstage
      split at h
      · rename_i hhook
        cases h
        exact .asked hstage (Bool.and_eq_true_iff.mp hhook).2
      · rename_i hhook
        cases h
        refine .unhooked hstage ?_
        cases hhas : X.hasWriteHooks with
        | false => exact X.known hhas i
        | true => simpa [hhas] using hhook
    · rename_i r hstage
      cases h
      exact .hooked r hstage
    · rename_i hstage
      cases h
      exact .written hstage
    · cases h
  | row =>
    simp only [exportTable] at h
    split at h
    · rename_i hstage
      cases h
      exact .row hstage
    · cases h
  | done =>
    simp only [exportTable] at h
    split at h
    · rename_i hstage
      cases h
      exact .done hstage
    · cases h
  | bail =>
    simp only [exportTable] at h
    split at h
    · rename_i hstage
      cases h
      exact .bailed hstage.1 hstage.2
    · cases h
  | fail message =>
    simp only [exportTable] at h
    split at h
    · rename_i hstage
      cases h
      exact .failed message hstage
    · cases h
  | writerFail message =>
    simp only [exportTable] at h
    split at h
    · rename_i hstage
      cases h
      exact .writerFailed message hstage
    · cases h
  | uncheck =>
    simp only [exportTable] at h
    split at h
    · rename_i hstage
      cases h
      exact .unchecked hstage
    · cases h
  | exit =>
    simp only [exportTable] at h
    split at h
    · rename_i how hstage
      cases h
      exact .exited how hstage
    · cases h

theorem Moves.awake {X : Setting ι} {i : ι} {sh sh' : Shared} {p p' : Proc} {a : Action}
    (h : Moves X i sh p a p' sh') :
    p.stage ≠ .waiting ∧ p'.stage ≠ .waiting ∧ p.stage.isAlive = true := by
  cases h with
  | failed message htry =>
    cases hstage : p.stage with
    | waiting => simp [hstage, Stage.inTry] at htry
    | dead how => simp [hstage, Stage.inTry] at htry
    | _ => simp [Stage.isAlive]
  | writerFailed message hwriter =>
    cases hstage : p.stage with
    | waiting => simp [hstage, Stage.hasWriter] at hwriter
    | dead how => simp [hstage, Stage.hasWriter] at hwriter
    | _ => simp [Stage.isAlive]
  | row hstage => simp [hstage, Stage.isAlive, Proc.put]
  | _ hstage => simp [*, Stage.isAlive]

def Stage.how : Stage → Option How
  | .finishing how | .dead how => some how
  | _ => none

/-- A process that has failed has put its error on the queue. -/
theorem Moves.puts {X : Setting ι} {i : ι} {sh sh' : Shared} {p p' : Proc} {a : Action}
    (h : Moves X i sh p a p' sh') :
    (p'.stage.how = some .failed → p.stage.how = some .failed ∨ sh'.errorQueue ≠ []) ∧
      (p'.stage.how = some .bailed → p.stage.how = some .bailed ∨ sh.exitEvent = true) ∧
      sh'.exitEvent = sh.exitEvent ∧ (sh'.errorQueue = [] → sh.errorQueue = []) := by
  cases h with
  | failed message => simp [Stage.how]
  | writerFailed message => exact ⟨.inl, .inl, rfl, by simp⟩
  | exited how hstage =>
    rw [hstage]
    exact ⟨.inl, .inl, rfl, id⟩
  | row hstage => simp [hstage, Stage.how, Proc.put]
  | bailed hstage hexit => simp [hexit, Stage.how]
  | _ => simp [Stage.how]

theorem Moves.stays_failed {X : Setting ι} {i : ι} {sh sh' : Shared} {p p' : Proc} {a : Action}
    (h : Moves X i sh p a p' sh') (hp : p.stage.how = some .failed) :
    p'.stage.how = some .failed := by
  cases h with
  | failed => rfl
  | writerFailed => exact hp
  | exited how hstage =>
    rw [hstage] at hp
    exact hp
  | _ hstage => simp [*, Stage.how] at hp

/-- The row counter before the rows are read, and once they all have been. -/
def Proc.Published (p : Proc) : Prop :=
  match p.stage with
  | .waiting | .checking | .finishing .unchecked | .dead .unchecked => p.progress = 0
  | .finishing .done | .dead .done => p.progress = p.readRows
  | _ => True

theorem Moves.published {X : Setting ι} {i : ι} {sh sh' : Shared} {p p' : Proc} {a : Action}
    (h : Moves X i sh p a p' sh') (hp : p.Published) : p'.Published := by
  cases h with
  | row hstage => simp [Proc.Published, Proc.put, hstage]
  | writerFailed => exact hp
  | unchecked hstage => simpa [Proc.Published, hstage] using hp
  | exited how hstage => cases how <;> simp_all [Proc.Published]
  | _ => simp [Proc.Published]

end RethinkDB.Export.Statistics
