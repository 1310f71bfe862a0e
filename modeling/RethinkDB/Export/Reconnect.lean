import Mathlib.Data.Prod.Lex
import RethinkDB.Lib.Prog

/-! The reading loop of `export_table`, which resumes behind the last row it has put on the
queue when the cursor fails. -/
namespace RethinkDB.Export
open RethinkDB.Lib Prog

/-! ### Keys -/

inductive KeyType where
  | array | bool | null | number | object | binary | time | string
  deriving Repr, DecidableEq

namespace KeyType

/-- The place of a type in the order of keys of different types. -/
def rank : KeyType → ℕ
  | array => 0
  | bool => 1
  | null => 2
  | number => 3
  | object => 4
  | binary => 5
  | time => 6
  | string => 7

theorem rank_injective : Function.Injective rank := by
  intro t t' h
  cases t <;> cases t' <;> first | rfl | cases h

instance : LinearOrder KeyType := LinearOrder.lift' rank rank_injective

/-- The types a primary key can have. -/
def Admissible (t : KeyType) : Prop := t ≠ null ∧ t ≠ object

instance (t : KeyType) : Decidable t.Admissible :=
  inferInstanceAs (Decidable (t ≠ null ∧ t ≠ object))

end KeyType

/-- Keys of different types compare by type, keys of one type by their values. -/
abbrev Key (P : Type) := KeyType ×ₗ P

def Key.type {P : Type} (k : Key P) : KeyType := (ofLex k).1

variable {P R : Type} [LinearOrder P]

/-- Strictly above a bound of `between`; Python's `None` is the bound null. -/
def Above (lo : Option (Key P)) (k : Key P) : Prop :=
  match lo with
  | none => .null < k.type
  | some lo => lo < k

instance (lo : Option (Key P)) (k : Key P) : Decidable (Above lo k) :=
  match lo with
  | none => inferInstanceAs (Decidable (.null < k.type))
  | some lo => inferInstanceAs (Decidable (lo < k))

/-- A table that is not modified, its rows as `order_by(index=pk)` streams them. -/
structure Table (P R : Type) [LinearOrder P] where
  key : R → Key P
  rows : List R
  ordered : rows.Pairwise fun row row' => key row < key row'
  admissible : ∀ row ∈ rows, (key row).type.Admissible

/-- `between(lo, r.maxval, left_bound="open").order_by(index=pk)`. -/
def Table.between (T : Table P R) (lo : Option (Key P)) : List R :=
  T.rows.filter fun row => Above lo (T.key row)

/-! ### The export -/

/-- `connection` is a `ReqlTimeoutError` or `ReqlDriverError`, `reql` any other `ReqlError`. -/
inductive Raised where
  | connection (message : String)
  | reql (message : String)
  | runtimeError (message : String)
  | other (text : String)
  deriving Repr, DecidableEq

/-- What a `next` of the cursor meets; `served` is a row, or the end of the stream. -/
inductive Next where
  | served
  | raised (e : Raised)
  deriving Repr, DecidableEq

inductive Task (R : Type) where
  | row (row : R)
  | stopIteration
  deriving Repr, DecidableEq

/-- What the export meets around its cursors: the answers of `exit_event.is_set`, what
opening and closing a cursor raises, and whether the writer is alive at the end. -/
structure Env where
  exits : ℕ → Bool
  opens : ℕ → Option Raised
  closes : ℕ → Option Raised
  writerAlive : Bool

structure World (P R : Type) where
  nexts : List Next
  checks : ℕ := 0
  opened : ℕ := 0
  cursor : List R := []
  taskQueue : List (Task R) := []
  errorQueue : List Raised := []
  log : List Raised := []
  lastPrimaryKey : Option (Key P) := none
  readRows : ℕ := 0
  progress : ℕ × ℕ

section ExportTable
variable (E : Env) (T : Table P R)

def isSet : Prog (World P R) Raised Bool := fun w =>
  (.ok (E.exits w.checks), { w with checks := w.checks + 1 })

def next : Prog (World P R) Raised (Option R) := fun w =>
  match w.nexts, w.cursor with
  | [], _ => (.running, w)
  | .raised e :: nexts, _ => (.error e, { w with nexts := nexts })
  | .served :: nexts, [] => (.ok none, { w with nexts := nexts })
  | .served :: nexts, row :: cursor =>
    (.ok (some row), { w with nexts := nexts, cursor := cursor })

def openCursor (rows : World P R → List R) : Prog (World P R) Raised Unit := fun w =>
  match E.opens w.opened with
  | some e => (.error e, { w with opened := w.opened + 1 })
  | none => (.ok (), { w with opened := w.opened + 1, cursor := rows w })

/-- `cursor.close()`, whose `ReqlError`s are only logged. -/
def closeCursor : Prog (World P R) Raised Unit := fun w =>
  match E.closes w.opened with
  | none => (.ok (), w)
  | some (.connection message) => (.ok (), { w with log := w.log ++ [.connection message] })
  | some (.reql message) => (.ok (), { w with log := w.log ++ [.reql message] })
  | some e => (.error e, w)

/-- A row is put on the queue; every 20 rows the progress is updated. -/
def putRow (row : R) : Prog (World P R) Raised Unit := modify fun w =>
  { w with
    taskQueue := w.taskQueue ++ [.row row]
    lastPrimaryKey := some (T.key row)
    readRows := w.readRows + 1
    progress := if (w.readRows + 1) % 20 = 0 then (w.readRows + 1, w.progress.2) else w.progress }

/-- `for row in cursor`; it says whether the cursor came to its end. -/
def forRow : ℕ → Prog (World P R) Raised Bool
  | 0 => stay
  | n + 1 => do
    match ← next with
    | none => pure true
    | some row =>
      if ← isSet E then pure false
      else do
        putRow T row
        forRow n

/-- The handler of the loop: a connection problem, re-setup the cursor. -/
def resume (e : Raised) : Prog (World P R) Raised Bool :=
  match e with
  | .connection _ => do
    closeCursor E
    openCursor E fun w => T.between w.lastPrimaryKey
    pure true
  | e => throw e

def turn (n : ℕ) : Prog (World P R) Raised Bool := do
  if ← isSet E then pure false
  else
    handle (do
      if ← forRow E T n then do
        modify fun w => { w with progress := (w.readRows, w.readRows) }
        pure false
      else pure true) (resume E T)

/-- What is put on the error queue for an exception: every `ReqlError` as a `RuntimeError`. -/
def Raised.reported : Raised → Raised
  | connection message => runtimeError message
  | reql message => runtimeError message
  | e => e

/-- `except` of `export_table`. -/
def report (e : Raised) : Prog (World P R) Raised Unit := modify fun w =>
  { w with errorQueue := w.errorQueue ++ [e.reported] }

/-- `export_table` from its first cursor on, its `except` and `finally` included. Each `next`
uses up an entry of the schedule, so its length bounds the turns of both loops. -/
def exportTable : Prog (World P R) Raised Unit := do
  let n ← read fun w => w.nexts.length + 1
  handle (do
    openCursor E fun _ => T.rows
    turns (turn E T n) n) report
  modify fun w =>
    if E.writerAlive then { w with taskQueue := w.taskQueue ++ [.stopIteration] } else w

end ExportTable

def rowsPut (taskQueue : List (Task R)) : List R :=
  taskQueue.filterMap fun
    | .row row => some row
    | .stopIteration => none

@[simp] theorem rowsPut_nil : rowsPut ([] : List (Task R)) = [] := rfl

@[simp] theorem rowsPut_row (taskQueue : List (Task R)) (row : R) :
    rowsPut (taskQueue ++ [.row row]) = rowsPut taskQueue ++ [row] := by
  simp [rowsPut]

@[simp] theorem rowsPut_stop (taskQueue : List (Task R)) :
    rowsPut (taskQueue ++ [.stopIteration]) = rowsPut taskQueue := by
  simp [rowsPut]

/-! ### Where a cursor resumes -/

namespace Table
variable {T : Table P R} {delivered rest : List R} {row : R}

theorem type_le {k k' : Key P} (h : k < k') : k.type ≤ k'.type := Prod.Lex.monotone_fst _ _ h.le

/-- What lies above a row of the stream is what follows it. -/
theorem filter_above (h : (delivered ++ row :: rest).Pairwise fun row row' => T.key row < T.key row') :
    (delivered ++ row :: rest).filter (fun r => Above (some (T.key row)) (T.key r)) = rest := by
  obtain ⟨-, hrest, hbefore⟩ := List.pairwise_append.mp h
  have hnone : delivered.filter (fun r => Above (some (T.key row)) (T.key r)) = [] := by
    simp only [List.filter_eq_nil_iff, decide_eq_true_eq]
    intro r hr hlt
    exact lt_asymm (hbefore r hr row (by simp)) hlt
  have hall : rest.filter (fun r => Above (some (T.key row)) (T.key r)) = rest := by
    simp only [List.filter_eq_self, decide_eq_true_eq]
    exact fun r hr => List.rel_of_pairwise_cons hrest hr
  have hself : ¬Above (some (T.key row)) (T.key row) := lt_irrefl (T.key row)
  rw [List.filter_append, hnone, List.filter_cons_of_neg (by simpa using hself), hall]
  rfl

theorem between_none (T : Table P R) :
    T.between none = T.rows ↔ ∀ row ∈ T.rows, .null < (T.key row).type := by
  unfold between
  simp only [List.filter_eq_self, decide_eq_true_eq]
  exact Iff.rfl

/-- Streams that a cursor can be on: the whole table, or what a null bound leaves of it. -/
def Base (T : Table P R) (base : List R) : Prop := base = T.rows ∨ base = T.between none

/-- Behind any row of the stream it was on, a new cursor goes on where the old one stopped. -/
theorem between_row {base : List R} (hbase : T.Base base) (h : delivered ++ row :: rest = base) :
    T.between (some (T.key row)) = rest := by
  rcases hbase with rfl | rfl
  · have hordered := T.ordered
    rw [← h] at hordered
    rw [between, ← h, filter_above hordered]
  · have hordered : (T.between none).Pairwise fun row row' => T.key row < T.key row' :=
      T.ordered.filter _
    have hrow : Above none (T.key row) := by
      have hin : row ∈ T.between none := by rw [← h]; simp
      exact of_decide_eq_true (List.mem_filter.mp hin).2
    have hsame : T.between (some (T.key row)) =
        (T.between none).filter fun r => Above (some (T.key row)) (T.key r) := by
      unfold between
      rw [List.filter_filter]
      apply List.filter_congr
      intro r _
      have habove : Above (some (T.key row)) (T.key r) → Above none (T.key r) := fun hlt =>
        lt_of_lt_of_le hrow (type_le hlt)
      simpa using habove
    rw [← h] at hordered
    rw [hsame, ← h, filter_above hordered]

end Table

/-! ### The invariant of the loop -/

section Loop
variable {E : Env} {T : Table P R} {base : List R} {w : World P R}

def FailsNext (nexts : List Next) : Prop :=
  ∃ message, nexts.head? = some (.raised (.connection message))

/-- The cursor fails before it has delivered anything. -/
def FailsFirst (w : World P R) : Prop := rowsPut w.taskQueue = [] ∧ FailsNext w.nexts

/-- The stream `base` is being delivered: what is still to come stands in the cursor. -/
structure Delivering (T : Table P R) (base : List R) (w : World P R) : Prop where
  last : w.lastPrimaryKey = (rowsPut w.taskQueue).getLast?.map T.key
  ahead : FailsFirst w ∨ rowsPut w.taskQueue ++ w.cursor = base
  restart : FailsFirst w → base = T.between none

/-- The cursor of the stream `base` has failed. -/
structure Stopped (T : Table P R) (base : List R) (w : World P R) : Prop where
  last : w.lastPrimaryKey = (rowsPut w.taskQueue).getLast?.map T.key
  ahead : rowsPut w.taskQueue = [] ∨ rowsPut w.taskQueue ++ w.cursor = base
  restart : rowsPut w.taskQueue = [] → base = T.between none

/-- The new cursor goes on with the stream. -/
theorem Stopped.between (h : Stopped T base w) (hbase : T.Base base) :
    rowsPut w.taskQueue ++ T.between w.lastPrimaryKey = base := by
  rcases List.eq_nil_or_concat (rowsPut w.taskQueue) with hnil | ⟨delivered, row, hrow⟩
  · have hlast := h.last
    rw [hnil] at hlast ⊢
    rw [h.restart hnil, hlast]
    rfl
  · have hlast := h.last
    have hahead := h.ahead.resolve_left (by simp [hrow])
    rw [hrow] at hlast hahead ⊢
    rw [hlast, List.concat_eq_append, List.getLast?_concat]
    rw [List.concat_eq_append, List.append_assoc] at hahead
    rw [Option.map_some, T.between_row hbase hahead, List.append_assoc]
    exact hahead

/-- What a `next` leads to: the end of the stream, one more row of it, or a stopped cursor. -/
def NextPost (T : Table P R) (base : List R) : Outcome Raised (Option R) → World P R → Prop
  | .ok none, w => rowsPut w.taskQueue = base
  | .ok (some row), w => rowsPut w.taskQueue ++ row :: w.cursor = base
  | .error (.connection _), w => Stopped T base w
  | _, _ => True

theorem next_post (h : Delivering T base w) : wp next (NextPost T base) w := by
  unfold wp next
  cases hnexts : w.nexts with
  | nil => trivial
  | cons first nexts =>
    cases first with
    | raised e =>
      cases e with
      | connection message =>
        constructor
        · exact h.last
        · exact h.ahead.imp_left And.left
        · exact fun hnil => h.restart ⟨hnil, message, by rw [hnexts]; rfl⟩
      | _ => trivial
    | served =>
      have hserved : ¬FailsFirst w := by
        rintro ⟨_, message, hhead⟩
        rw [hnexts] at hhead
        cases hhead
      have hahead := h.ahead.resolve_left hserved
      cases hcursor : w.cursor with
      | nil =>
        rw [hcursor, List.append_nil] at hahead
        exact hahead
      | cons row cursor =>
        rw [hcursor] at hahead
        exact hahead

omit [LinearOrder P] in
theorem wp_isSet (hexits : ∀ i, E.exits i = false) {Q : Outcome Raised Bool → World P R → Prop} :
    wp (isSet E) Q w ↔ Q (.ok false) { w with checks := w.checks + 1 } := by
  unfold wp isSet
  rw [hexits]

omit [LinearOrder P] in
theorem wp_openCursor {rows : World P R → List R} {Q : Outcome Raised Unit → World P R → Prop} :
    wp (openCursor E rows) Q w ↔
      (∀ e, E.opens w.opened = some e → Q (.error e) { w with opened := w.opened + 1 }) ∧
      (E.opens w.opened = none →
        Q (.ok ()) { w with opened := w.opened + 1, cursor := rows w }) := by
  unfold wp openCursor
  cases E.opens w.opened <;> simp

theorem putRow_delivering {row : R} (h : rowsPut w.taskQueue ++ row :: w.cursor = base) :
    wp (putRow T row) (fun o w' => o = .ok () ∧ Delivering T base w') w := by
  have hput := rowsPut_row w.taskQueue row
  rw [putRow, wp_modify]
  refine ⟨rfl, ?_, .inr ?_, ?_⟩
  · dsimp only
    rw [hput, List.getLast?_concat, Option.map_some]
  · dsimp only
    rw [hput, List.append_assoc]
    exact h
  · rintro ⟨hnil, _⟩
    dsimp only at hnil
    simp [hput] at hnil

/-- How the `for` loop is left. -/
def ForPost (T : Table P R) (base : List R) : Outcome Raised Bool → World P R → Prop
  | .ok ended, w => ended = true ∧ rowsPut w.taskQueue = base
  | .error (.connection _), w => Stopped T base w
  | _, _ => True

theorem forRow_post (hexits : ∀ i, E.exits i = false) (n : ℕ) (h : Delivering T base w) :
    wp (forRow E T n) (ForPost T base) w := by
  induction n generalizing w with
  | zero => trivial
  | succ n ih =>
    unfold forRow
    rw [wp_bind]
    refine (next_post h).mono ?_
    rintro (_ | e | _) w' hnext
    · rename_i got
      rw [bindPost_ok]
      cases got with
      | none => exact ⟨rfl, hnext⟩
      | some row =>
        dsimp only
        rw [wp_bind, wp_isSet hexits, bindPost_ok, if_neg (by simp), wp_bind]
        refine (putRow_delivering (w := { w' with checks := w'.checks + 1 }) hnext).mono ?_
        rintro _ w'' ⟨rfl, hdelivering⟩
        exact ih hdelivering
    · cases e with
      | connection message => exact hnext
      | _ => trivial
    · trivial

theorem closeCursor_stopped (h : Stopped T base w) :
    wp (closeCursor E) (fun o w' => o = .ok () → Stopped T base w') w := by
  unfold wp closeCursor
  rcases E.closes w.opened with _ | _ | _ | _ | _
  · exact fun _ => h
  · exact fun _ => ⟨h.last, h.ahead, h.restart⟩
  · exact fun _ => ⟨h.last, h.ahead, h.restart⟩
  · exact fun ho => by cases ho
  · exact fun ho => by cases ho

/-- The handler puts the loop back on its stream. -/
theorem resume_delivering (hbase : T.Base base) {message : String} (h : Stopped T base w) :
    wp (resume E T (.connection message))
      (fun o w' => ∀ b, o = .ok b → b = true ∧ Delivering T base w') w := by
  unfold resume
  rw [wp_bind]
  refine (closeCursor_stopped h).mono ?_
  rintro (_ | e | _) w' hstopped
  · have hstopped := hstopped rfl
    rw [bindPost_ok, wp_bind]
    rw [wp_openCursor]
    constructor
    · intro e _ b hb
      cases hb
    · rintro _ b ⟨⟩
      exact ⟨rfl, hstopped.last, .inr (hstopped.between hbase),
        fun hfirst => hstopped.restart hfirst.1⟩
  · intro b hb
    cases hb
  · intro b hb
    cases hb

/-- How the export ends when nothing else is raised. -/
def Delivered (base : List R) : Outcome Raised Unit → World P R → Prop
  | .ok _, w => rowsPut w.taskQueue = base
  | _, _ => True

theorem turn_post (hexits : ∀ i, E.exits i = false) (hbase : T.Base base) (n : ℕ)
    (h : Delivering T base w) :
    wp (turn E T n) (turnPost (Delivering T base) (Delivered base)) w := by
  unfold turn
  rw [wp_bind, wp_isSet hexits, bindPost_ok, if_neg (by simp), wp_handle, wp_bind]
  refine (forRow_post (w := { w with checks := w.checks + 1 }) hexits n
    ⟨h.last, h.ahead, h.restart⟩).mono ?_
  rintro (_ | e | _) w' hfor
  · rename_i ended
    obtain ⟨rfl, hput⟩ := hfor
    exact hput
  · rw [bindPost_error, handlePost_error]
    cases e with
    | connection message =>
      refine (resume_delivering hbase hfor).mono ?_
      rintro (_ | _ | _) w'' hresume
      · obtain ⟨rfl, hdelivering⟩ := hresume _ rfl
        exact hdelivering
      · trivial
      · trivial
    | _ => trivial
  · trivial

end Loop

/-! ### What is exported -/

def World.start (nexts : List Next) (progress : ℕ × ℕ) : World P R :=
  { nexts := nexts, progress := progress }

section
variable {E : Env} {T : Table P R} {nexts : List Next} {progress : ℕ × ℕ}

/-- The loop, from the first cursor on. -/
theorem readRows_delivered (hexits : ∀ i, E.exits i = false) {base : List R} (hbase : T.Base base)
    (hfirst : FailsNext nexts → base = T.between none) (hlater : ¬FailsNext nexts → base = T.rows)
    (n : ℕ) :
    wp (openCursor E (fun _ => T.rows) >>= fun _ => turns (turn E T n) n) (Delivered base)
      (World.start nexts progress) := by
  have hstart : Delivering T base { (World.start nexts progress : World P R) with
      opened := 1, cursor := T.rows } := by
    refine ⟨rfl, ?_, fun hfails => hfirst hfails.2⟩
    by_cases hfails : FailsNext nexts
    · exact .inl ⟨rfl, hfails⟩
    · exact .inr (hlater hfails).symm
  rw [wp_bind, wp_openCursor]
  cases hopen : E.opens 0 with
  | some e =>
    refine ⟨fun _ _ => trivial, fun hopened => ?_⟩
    rw [World.start, hopen] at hopened
    cases hopened
  | none =>
    refine ⟨fun _ _ => trivial, fun _ => ?_⟩
    rw [bindPost_ok]
    exact wp_turns (fun _ _ => trivial) (fun w => turn_post hexits hbase n) n hstart

/-- The stream an export delivers. -/
theorem exportTable_delivers (hexits : ∀ i, E.exits i = false) {base : List R}
    (hbase : T.Base base) (hfirst : FailsNext nexts → base = T.between none)
    (hlater : ¬FailsNext nexts → base = T.rows) :
    wp (exportTable E T) (fun o w => o = .ok () → w.errorQueue = [] → rowsPut w.taskQueue = base)
      (World.start nexts progress) := by
  unfold exportTable
  rw [wp_bind, wp_read, bindPost_ok, wp_bind, wp_handle]
  refine (readRows_delivered hexits hbase hfirst hlater _).mono ?_
  rintro (_ | e | _) w hdelivered
  · rw [handlePost_ok, bindPost_ok, wp_modify]
    intro _ _
    split
    · rw [rowsPut_stop]
      exact hdelivered
    · exact hdelivered
  · rw [handlePost_error, report, wp_modify, bindPost_ok, wp_modify]
    intro _ hempty
    exfalso
    revert hempty
    split <;> simp
  · intro ho
    cases ho

/-- An export that meets no error delivers every row exactly when the first thing its cursor
meets is not a connection problem, or no key of the table sorts below null. -/
theorem exports_all_iff (hexits : ∀ i, E.exits i = false)
    (hend : (exportTable E T (World.start nexts progress)).1 = .ok ())
    (herror : (exportTable E T (World.start nexts progress)).2.errorQueue = []) :
    rowsPut (exportTable E T (World.start nexts progress)).2.taskQueue = T.rows ↔
      ¬FailsNext nexts ∨ ∀ row ∈ T.rows, .null < (T.key row).type := by
  by_cases hfails : FailsNext nexts
  · have hput : rowsPut _ = T.between none := exportTable_delivers hexits (.inr rfl)
      (fun _ => rfl) (fun hnot => absurd hfails hnot) hend herror
    rw [hput, T.between_none]
    simp [hfails]
  · have hput : rowsPut _ = T.rows := exportTable_delivers hexits (.inl rfl)
      (fun hnot => absurd hnot hfails) (fun _ => rfl) hend herror
    simp [hput, hfails]

end

def arrayKeyed : Table ℕ ℕ where
  key := fun row => toLex (if row = 0 then .array else .number, row)
  rows := [0, 1]
  ordered := by decide
  admissible := by decide

/-- Every cursor opens, no exit is asked for and the writer lives. -/
def undisturbed : Env where
  exits := fun _ => false
  opens := fun _ => none
  closes := fun _ => none
  writerAlive := true

theorem exports_all_iff_between_rows :
    let nexts := [.served, .raised (.connection "closed"), .served, .served]
    rowsPut (exportTable undisturbed arrayKeyed (World.start nexts (0, 2))).2.taskQueue =
        arrayKeyed.rows ↔
      ¬FailsNext nexts ∨ ∀ row ∈ arrayKeyed.rows, .null < (arrayKeyed.key row).type :=
  exports_all_iff (fun _ => rfl) (by decide +kernel) (by decide +kernel)

/-- The first thing the cursor meets is a closed connection: the row under the array is lost. -/
theorem arrayKeyed_loses_row :
    ∃ nexts, (∀ i, undisturbed.exits i = false) ∧
      (exportTable undisturbed arrayKeyed (World.start nexts (0, 2))).1 = .ok () ∧
      (exportTable undisturbed arrayKeyed (World.start nexts (0, 2))).2.errorQueue = [] ∧
      rowsPut (exportTable undisturbed arrayKeyed (World.start nexts (0, 2))).2.taskQueue = [1] ∧
      arrayKeyed.rows = [0, 1] :=
  ⟨[.raised (.connection "closed"), .served, .served], fun _ => rfl, by decide +kernel, by decide +kernel,
    by decide +kernel, rfl⟩

end RethinkDB.Export
