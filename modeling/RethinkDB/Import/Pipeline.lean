import Mathlib.Algebra.BigOperators.Group.Multiset.Basic
import Mathlib.Data.Multiset.OrderedMonoid
import Mathlib.Tactic.Abel
import RethinkDB.Lib.Machine

/-! `import_tables`: the parent, its readers and its writers around one bounded work queue, with
a failure of any of them and a terminate signal at any point. -/
namespace RethinkDB.Import.Pipeline
open RethinkDB.Lib

/-- A batch of rows and the table it is for. -/
abbrev Task (K R : Type) := K × List R

/-- What is put on the work queue; a writer that gets `stop` ends. -/
inductive Item (K R : Type) where
  | batch (task : Task K R)
  | stop

/-- A process that has put its exception on the error queue is `failing` until it has set the
exit event. -/
inductive Status where
  | running | failing | ended
  deriving Repr, DecidableEq

/-- A `read_to_queue`: the batch it has got from `batches` and not yet put, and those to come. -/
structure Reader (K R : Type) where
  holding : Option (Task K R)
  rest : List (Task K R)
  status : Status

/-- A `table_writer`. -/
inductive Writer (K R : Type) where
  | idle
  | writing (task : Task K R)
  | failing
  | ended

/-- Where the parent stands: at the top of its first loop, filling the readers pool, reaping
what has ended, waiting for the last readers, putting so many more `StopIteration`s, waiting
for the writers; `import_tables` then returns or raises. -/
inductive Phase where
  | starting | filling | reaping | joining
  | stopping (left : ℕ)
  | waiting | returned | raised
  deriving Repr, DecidableEq

structure State (K R : Type) where
  unread : List (List (Task K R))
  readers : List (Reader K R)
  queue : List (Item K R)
  writers : List (Writer K R)
  phase : Phase
  exitEvent : Bool
  interruptSeen : Bool
  errorQueue : List String
  errors : List String
  warningQueue : List String
  warnings : List String
  rowsWritten : K → ℕ
  acknowledged : Multiset (Task K R)
  dropped : Multiset (Task K R)

inductive Event where
  | parent | reader | writer | interrupt
  deriving Repr, DecidableEq

variable {K R : Type} [DecidableEq K]

def Item.tasks : Item K R → Multiset (Task K R)
  | batch task => {task}
  | stop => 0

def Reader.tasks (r : Reader K R) : Multiset (Task K R) := r.holding.toList + r.rest

def Writer.tasks : Writer K R → Multiset (Task K R)
  | writing task => {task}
  | _ => 0

/-- A reader process for a source, by the batches that it yields. -/
def Reader.start (source : List (Task K R)) : Reader K R := ⟨none, source, .running⟩

def Reader.stopped (status : Status) : Reader K R := ⟨none, [], status⟩

namespace State

def failed (s : State K R) (e : String) : State K R :=
  { s with errorQueue := s.errorQueue ++ [e] }

/-- `drain_queues`. -/
def drained (s : State K R) : State K R :=
  { s with
    errors := s.errors ++ s.errorQueue
    errorQueue := []
    warnings := s.warnings ++ s.warningQueue
    warningQueue := [] }

/-- `add_rows_written` for an acknowledged batch. -/
def written (s : State K R) (task : Task K R) : State K R :=
  { s with
    acknowledged := s.acknowledged + {task}
    rowsWritten := Function.update s.rowsWritten task.1 (s.rowsWritten task.1 + task.2.length) }

end State

/-- What the parent, a reader, a writer or a terminate signal can do next. Whether `exit_event`
is set is looked up before a `get` or a `put`, so that both may still go through afterwards. -/
inductive Step (clients bound : ℕ) : State K R → Event → State K R → Prop
  | look {s} : s.phase = .starting →
      Step clients bound s .parent { s with phase := if s.exitEvent then .joining else .filling }
  | start {s source unread} : s.phase = .filling → s.readers.length < clients →
      s.unread = source :: unread →
      Step clients bound s .parent
        { s with unread := unread, readers := s.readers ++ [Reader.start source] }
  | exhausted {s} : s.phase = .filling → s.readers.length < clients → s.unread = [] →
      Step clients bound s .parent { s with phase := .joining }
  | full {s} : s.phase = .filling → clients ≤ s.readers.length →
      Step clients bound s .parent { s with phase := .reaping }
  | drain {s} : s.phase = .reaping ∨ s.phase = .joining → Step clients bound s .parent s.drained
  | reap {s before r after} : s.phase = .reaping ∨ s.phase = .joining →
      s.readers = before ++ r :: after → r.status = .ended →
      Step clients bound s .parent { s with readers := before ++ after }
  | again {s} : s.phase = .reaping → Step clients bound s .parent { s with phase := .starting }
  | discard {s item queue} : s.phase = .joining → s.exitEvent = true → s.queue = item :: queue →
      Step clients bound s .parent { s with queue := queue, dropped := s.dropped + item.tasks }
  | joined {s} : s.phase = .joining → s.readers = [] →
      Step clients bound s .parent { s with phase := .stopping s.writers.length }
  | skip {s n} : s.phase = .stopping (n + 1) → s.exitEvent = true →
      Step clients bound s .parent { s with phase := .stopping n }
  | stop {s n} : s.phase = .stopping (n + 1) → s.queue.length < bound →
      Step clients bound s .parent { s with phase := .stopping n, queue := s.queue ++ [.stop] }
  | stopped {s} : s.phase = .stopping 0 → Step clients bound s .parent { s with phase := .waiting }
  | finish {s} : s.phase = .waiting → (∀ w ∈ s.writers, w = .ended) →
      Step clients bound s .parent { s.drained with
        phase := if s.drained.errors = [] ∧ s.drained.warnings = [] then .returned else .raised }
  | getBatch {s before task rest after} :
      s.readers = before ++ ⟨none, task :: rest, .running⟩ :: after →
      Step clients bound s .reader
        { s with readers := before ++ ⟨some task, rest, .running⟩ :: after }
  | put {s before task rest after} :
      s.readers = before ++ ⟨some task, rest, .running⟩ :: after → s.queue.length < bound →
      Step clients bound s .reader { s with
        queue := s.queue ++ [.batch task], readers := before ++ ⟨none, rest, .running⟩ :: after }
  | giveUp {s before task rest after} :
      s.readers = before ++ ⟨some task, rest, .running⟩ :: after → s.exitEvent = true →
      Step clients bound s .reader { s with
        readers := before ++ .stopped .ended :: after
        dropped := s.dropped + (Reader.mk (some task) rest .running).tasks }
  | done {s before after} : s.readers = before ++ ⟨none, [], .running⟩ :: after →
      Step clients bound s .reader { s with readers := before ++ .stopped .ended :: after }
  | warn {s r e} : r ∈ s.readers → r.status = .running →
      Step clients bound s .reader { s with warningQueue := s.warningQueue ++ [e] }
  | failReader {s before r after e} : s.readers = before ++ r :: after → r.status = .running →
      Step clients bound s .reader { s.failed e with
        readers := before ++ .stopped .failing :: after, dropped := s.dropped + r.tasks }
  | abortReader {s before r after} : s.readers = before ++ r :: after → r.status = .failing →
      Step clients bound s .reader { s with
        readers := before ++ .stopped .ended :: after, exitEvent := true }
  | take {s before after task queue} : s.writers = before ++ .idle :: after →
      s.queue = .batch task :: queue →
      Step clients bound s .writer
        { s with queue := queue, writers := before ++ .writing task :: after }
  | takeStop {s before after queue} : s.writers = before ++ .idle :: after →
      s.queue = .stop :: queue →
      Step clients bound s .writer { s with queue := queue, writers := before ++ .ended :: after }
  | acknowledge {s before task after} : s.writers = before ++ .writing task :: after →
      Step clients bound s .writer { s.written task with writers := before ++ .idle :: after }
  | leave {s before after} : s.writers = before ++ .idle :: after → s.exitEvent = true →
      Step clients bound s .writer { s with writers := before ++ .ended :: after }
  | failWriter {s before w after e} : s.writers = before ++ w :: after →
      (w = .idle ∨ ∃ task, w = .writing task) →
      Step clients bound s .writer { s.failed e with
        writers := before ++ .failing :: after, dropped := s.dropped + w.tasks }
  | abortWriter {s before after} : s.writers = before ++ .failing :: after →
      Step clients bound s .writer
        { s with writers := before ++ .ended :: after, exitEvent := true }
  | abort {s} : s.phase ≠ .returned → s.phase ≠ .raised → s.interruptSeen = false →
      Step clients bound s .interrupt { s with interruptSeen := true, exitEvent := true }
  | terminate {s} : s.phase ≠ .returned → s.phase ≠ .raised → s.interruptSeen = true →
      Step clients bound s .interrupt { s with
        readers := s.readers.map fun _ => .stopped .ended
        writers := s.writers.map fun _ => .ended
        dropped := s.dropped + (s.readers.map Reader.tasks).sum + (s.writers.map Writer.tasks).sum }

def started (sources : List (List (Task K R))) (clients : ℕ) : State K R where
  unread := sources
  readers := []
  queue := []
  writers := List.replicate clients .idle
  phase := .starting
  exitEvent := false
  interruptSeen := false
  errorQueue := []
  errors := []
  warningQueue := []
  warnings := []
  rowsWritten := fun _ => 0
  acknowledged := 0
  dropped := 0

/-- The import of these sources; `--clients` is a positive number. -/
def machine (sources : List (List (Task K R))) (clients bound : ℕ) :
    Machine (State K R) Event where
  init s := 0 < clients ∧ s = started sources clients
  step := Step clients bound

/-! ### What success promises -/

def tasksOf (sources : List (List (Task K R))) : Multiset (Task K R) :=
  (sources.map Multiset.ofList).sum

def rowsOf (tasks : Multiset (Task K R)) (table : K) : ℕ :=
  (tasks.map fun task => if task.1 = table then task.2.length else 0).sum

/-- An import that returns has had every batch acknowledged exactly once, and counted. -/
def Honest (sources : List (List (Task K R))) (s : State K R) : Prop :=
  s.phase = .returned →
    s.acknowledged = tasksOf sources ∧ ∀ table, s.rowsWritten table = rowsOf (tasksOf sources) table

/-! ### What a run keeps -/

namespace State

def unreadTasks (s : State K R) : Multiset (Task K R) := tasksOf s.unread

def readersTasks (s : State K R) : Multiset (Task K R) := (s.readers.map Reader.tasks).sum

def queueTasks (s : State K R) : Multiset (Task K R) := (s.queue.map Item.tasks).sum

def writersTasks (s : State K R) : Multiset (Task K R) := (s.writers.map Writer.tasks).sum

/-- No batch is still to be read or taken from the queue. -/
def Read (s : State K R) : Prop := s.unread = [] ∧ s.readersTasks = 0 ∧ s.queueTasks = 0

/-- Where the batches are, all in all. -/
def total (s : State K R) : Multiset (Task K R) :=
  s.acknowledged + s.writersTasks + s.queueTasks + s.readersTasks + s.unreadTasks + s.dropped

def Reported (s : State K R) : Prop := s.errorQueue ≠ [] ∨ s.errors ≠ []

end State

def State.Failed (s : State K R) : Prop := s.Reported ∧ s.phase ≠ .returned

/-- A terminate signal that comes too late to do harm: there is an error to report, or no batch
is still to be read, and a second signal finds no writer at work. -/
def Harmless (s : State K R) : Event → Prop
  | .interrupt => s.Reported ∨ s.Read ∧ (s.interruptSeen = true → s.writersTasks = 0)
  | _ => True

/-- Each batch is in one place, and what is acknowledged is counted. -/
structure Kept (sources : List (List (Task K R))) (s : State K R) : Prop where
  total : s.total = tasksOf sources
  counted : ∀ table, s.rowsWritten table = rowsOf s.acknowledged table
  empty : ∀ r ∈ s.readers, r.status ≠ .running → r.tasks = 0
  manned : s.writers ≠ []

/-- As long as no error is reported, nothing is lost and only an import that has read
everything can end. -/
structure Sound (s : State K R) : Prop where
  dropped : s.dropped = 0
  exited : s.exitEvent = true → s.Read
  readers : ∀ r ∈ s.readers, r.status ≠ .failing
  writers : .failing ∉ s.writers
  ended : .ended ∈ s.writers → s.Read
  stops : s.queue.Pairwise fun item item' => item = .stop → item' = .stop
  stop : .stop ∈ s.queue → s.unread = [] ∧ s.readers = []
  read : s.phase = .joining → s.unread = []
  joined : (∃ n, s.phase = .stopping n) ∨ s.phase = .waiting ∨ s.phase = .returned →
    s.unread = [] ∧ s.readers = []
  allEnded : s.phase = .returned → ∀ w ∈ s.writers, w = .ended

/-! ### Each batch is in one place -/

section Tasks
omit [DecidableEq K]

theorem Reader.tasks_cons (task : Task K R) (rest : List (Task K R)) (status : Status) :
    (Reader.mk none (task :: rest) status).tasks = (Reader.mk (some task) rest status).tasks := by
  simp [Reader.tasks, ← Multiset.cons_coe]

theorem Reader.tasks_some (task : Task K R) (rest : List (Task K R)) (status : Status) :
    (Reader.mk (some task) rest status).tasks =
      {task} + (Reader.mk none rest status).tasks := by
  simp [Reader.tasks]

theorem Reader.tasks_nil (status : Status) :
    (Reader.mk none [] status : Reader K R).tasks = 0 := rfl

theorem Reader.tasks_stopped (status : Status) :
    (Reader.stopped status : Reader K R).tasks = 0 := rfl

theorem Reader.tasks_start (source : List (Task K R)) :
    (Reader.start source).tasks = source := by
  simp [Reader.tasks, Reader.start]

theorem sum_map_mid {α : Type} (f : α → Multiset (Task K R)) (before after : List α) (x : α) :
    ((before ++ x :: after).map f).sum = (before.map f).sum + (f x + (after.map f).sum) := by
  rw [List.map_append, List.sum_append, List.map_cons, List.sum_cons]

theorem sum_map_stopped {α β : Type} (f : β → Multiset (Task K R)) {y : β} (hy : f y = 0)
    (xs : List α) : ((xs.map fun _ => y).map f).sum = 0 := by
  induction xs with
  | nil => rfl
  | cons x xs ih => rw [List.map_cons, List.map_cons, List.sum_cons, hy, ih, add_zero]

end Tasks

theorem total_step {clients bound : ℕ} {s s' : State K R} {e : Event}
    (hempty : ∀ r ∈ s.readers, r.status ≠ .running → r.tasks = 0) (h : Step clients bound s e s') :
    s'.total = s.total := by
  unfold State.total State.writersTasks State.queueTasks State.readersTasks State.unreadTasks
  cases h with
  | look _ => rfl
  | start _ _ hunread =>
    simp only [tasksOf, hunread, List.map_append, List.map_cons, List.map_nil, List.sum_append,
      List.sum_cons, List.sum_nil, Reader.tasks_start]
    abel
  | exhausted _ _ _ => rfl
  | full _ _ => rfl
  | drain _ => rfl
  | @reap before r after _ hreaders hended =>
    have hr : r.tasks = 0 := hempty r (by simp [hreaders]) (by simp [hended])
    rw [hreaders, sum_map_mid, hr, zero_add, List.map_append, List.sum_append]
  | again _ => rfl
  | discard _ _ hqueue =>
    simp only [hqueue, List.map_cons, List.sum_cons]
    abel
  | joined _ _ => rfl
  | skip _ _ => rfl
  | stop _ _ =>
    simp only [List.map_append, List.map_cons, List.map_nil, List.sum_append, List.sum_cons,
      List.sum_nil, Item.tasks, add_zero]
  | stopped _ => rfl
  | finish _ _ => rfl
  | getBatch hreaders => simp only [hreaders, sum_map_mid, Reader.tasks_cons]
  | put hreaders _ =>
    simp only [hreaders, Reader.tasks_some, List.map_append, List.map_cons, List.map_nil,
      List.sum_append, List.sum_cons, List.sum_nil, Item.tasks]
    abel
  | giveUp hreaders _ =>
    simp only [hreaders, sum_map_mid, Reader.tasks_stopped]
    abel
  | done hreaders => simp only [hreaders, sum_map_mid, Reader.tasks_stopped, Reader.tasks_nil]
  | warn _ _ => rfl
  | failReader hreaders _ =>
    simp only [hreaders, sum_map_mid, Reader.tasks_stopped, State.failed]
    abel
  | @abortReader before r after hreaders hfailing =>
    have hr : r.tasks = 0 := hempty r (by simp [hreaders]) (by simp [hfailing])
    simp only [hreaders, sum_map_mid, Reader.tasks_stopped, hr]
  | take hwriters hqueue =>
    simp only [hwriters, hqueue, sum_map_mid, List.map_cons, List.sum_cons, Writer.tasks, Item.tasks]
    abel
  | takeStop hwriters hqueue =>
    simp only [hwriters, hqueue, sum_map_mid, List.map_cons, List.sum_cons, Writer.tasks,
      Item.tasks, zero_add]
  | acknowledge hwriters =>
    simp only [hwriters, sum_map_mid, Writer.tasks, State.written]
    abel
  | leave hwriters _ => simp only [hwriters, sum_map_mid, Writer.tasks]
  | failWriter hwriters _ =>
    simp only [hwriters, sum_map_mid, Writer.tasks, State.failed]
    abel
  | abortWriter hwriters => simp only [hwriters, sum_map_mid, Writer.tasks]
  | abort _ _ _ => rfl
  | terminate _ _ _ =>
    have hwriter : (Writer.ended : Writer K R).tasks = 0 := rfl
    simp only [sum_map_stopped _ (Reader.tasks_stopped _), sum_map_stopped _ hwriter]
    abel

/-! ### The invariant step by step -/

theorem forall_mid {α : Type} {P : α → Prop} {before after : List α} {x y : α}
    (h : ∀ z ∈ before ++ x :: after, P z) (hy : P y) : ∀ z ∈ before ++ y :: after, P z := by
  intro z hz
  rcases List.mem_append.mp hz with hz | hz
  · exact h z (List.mem_append_left _ hz)
  · rcases List.mem_cons.mp hz with rfl | hz
    · exact hy
    · exact h z (List.mem_append_right _ (List.mem_cons_of_mem _ hz))

theorem mem_mid {α : Type} {before after : List α} {x y z : α} (h : z ∈ before ++ y :: after)
    (hne : z ≠ y) : z ∈ before ++ x :: after := by
  rcases List.mem_append.mp h with hz | hz
  · exact List.mem_append_left _ hz
  · exact List.mem_append_right _ (List.mem_cons_of_mem _ ((List.mem_cons.mp hz).resolve_left hne))

section Invariant
variable {sources : List (List (Task K R))} {clients bound : ℕ} {s s' : State K R} {e : Event}

theorem rowsOf_acknowledge (tasks : Multiset (Task K R)) (task : Task K R) (table : K) :
    rowsOf (tasks + {task}) table =
      rowsOf tasks table + if task.1 = table then task.2.length else 0 := by
  simp [rowsOf]

theorem Kept.step (hs : Kept sources s) (h : Step clients bound s e s') : Kept sources s' := by
  have htotal : s'.total = tasksOf sources := (total_step hs.empty h).trans hs.total
  have hput : ∀ {before after : List (Reader K R)} {r r' : Reader K R},
      s.readers = before ++ r :: after → (r'.status ≠ .running → r'.tasks = 0) →
        ∀ z ∈ before ++ r' :: after, z.status ≠ .running → z.tasks = 0 := by
    intro before after r r' hreaders hr'
    have hempty := hs.empty
    rw [hreaders] at hempty
    exact forall_mid hempty hr'
  cases h with
  | start _ _ _ =>
    refine ⟨htotal, hs.counted, fun r hr hstatus => ?_, hs.manned⟩
    rcases List.mem_append.mp hr with hr | hr
    · exact hs.empty r hr hstatus
    · rw [List.mem_singleton.mp hr] at hstatus
      exact absurd rfl hstatus
  | reap _ hreaders _ =>
    refine ⟨htotal, hs.counted, fun r hr => hs.empty r ?_, hs.manned⟩
    rw [hreaders]
    exact List.mem_append.mpr ((List.mem_append.mp hr).imp_right (List.mem_cons_of_mem _))
  | getBatch hreaders =>
    exact ⟨htotal, hs.counted, hput hreaders (fun hrun => absurd rfl hrun), hs.manned⟩
  | put hreaders _ =>
    exact ⟨htotal, hs.counted, hput hreaders (fun hrun => absurd rfl hrun), hs.manned⟩
  | giveUp hreaders _ =>
    exact ⟨htotal, hs.counted, hput hreaders (fun _ => rfl), hs.manned⟩
  | done hreaders =>
    exact ⟨htotal, hs.counted, hput hreaders (fun _ => rfl), hs.manned⟩
  | failReader hreaders _ =>
    exact ⟨htotal, hs.counted, hput hreaders (fun _ => rfl), hs.manned⟩
  | abortReader hreaders _ =>
    exact ⟨htotal, hs.counted, hput hreaders (fun _ => rfl), hs.manned⟩
  | take _ _ => exact ⟨htotal, hs.counted, hs.empty, by simp⟩
  | takeStop _ _ => exact ⟨htotal, hs.counted, hs.empty, by simp⟩
  | @acknowledge before task after _ =>
    refine ⟨htotal, fun table => ?_, hs.empty, by simp⟩
    have hcounted := hs.counted table
    have hadd := rowsOf_acknowledge s.acknowledged task table
    change Function.update s.rowsWritten task.1 _ table = rowsOf (s.acknowledged + {task}) table
    by_cases htable : task.1 = table
    · subst htable
      rw [Function.update_self, hadd, if_pos rfl, hcounted]
    · rw [Function.update_of_ne (Ne.symm htable), hadd, if_neg htable, hcounted, Nat.add_zero]
  | leave _ _ => exact ⟨htotal, hs.counted, hs.empty, by simp⟩
  | failWriter _ _ => exact ⟨htotal, hs.counted, hs.empty, by simp⟩
  | abortWriter _ => exact ⟨htotal, hs.counted, hs.empty, by simp⟩
  | terminate _ _ _ =>
    refine ⟨htotal, hs.counted, fun r hr _ => ?_, by simpa using hs.manned⟩
    obtain ⟨_, _, rfl⟩ := List.mem_map.mp hr
    rfl
  | _ => exact ⟨htotal, hs.counted, hs.empty, hs.manned⟩

theorem State.Failed.step (hs : s.Failed) (h : Step clients bound s e s') : s'.Failed := by
  obtain ⟨hreport, hphase⟩ := hs
  have hdrained : s.drained.errors ≠ [] := fun hnil => by
    obtain ⟨herrors, hqueue⟩ := List.append_eq_nil_iff.mp hnil
    exact hreport.elim (fun h => h hqueue) fun h => h herrors
  cases h with
  | look _ =>
    refine ⟨hreport, ?_⟩
    dsimp only
    split <;> simp
  | drain _ => exact ⟨.inr hdrained, hphase⟩
  | finish _ _ =>
    refine ⟨.inr hdrained, ?_⟩
    simp [hdrained]
  | failReader _ _ => exact ⟨hreport.imp_left fun _ => by simp [State.failed], hphase⟩
  | failWriter _ _ => exact ⟨hreport.imp_left fun _ => by simp [State.failed], hphase⟩
  | exhausted _ _ _ => exact ⟨hreport, by simp⟩
  | full _ _ => exact ⟨hreport, by simp⟩
  | again _ => exact ⟨hreport, by simp⟩
  | joined _ _ => exact ⟨hreport, by simp⟩
  | skip _ _ => exact ⟨hreport, by simp⟩
  | stop _ _ => exact ⟨hreport, by simp⟩
  | stopped _ => exact ⟨hreport, by simp⟩
  | _ => exact ⟨hreport, hphase⟩

omit [DecidableEq K] in
theorem readersTasks_mid {before after : List (Reader K R)} {r : Reader K R}
    (hreaders : s.readers = before ++ r :: after) (hread : s.readersTasks = 0) :
    r.tasks = 0 ∧ ((before ++ after).map Reader.tasks).sum = 0 := by
  rw [State.readersTasks, hreaders, sum_map_mid] at hread
  simp only [add_eq_zero] at hread
  rw [List.map_append, List.sum_append, hread.1, hread.2.2]
  exact ⟨hread.2.1, rfl⟩

omit [DecidableEq K] in
/-- Behind a `stop` the queue holds nothing else. -/
theorem queueTasks_stop {queue : List (Item K R)} (h : ∀ item ∈ queue, item = .stop) :
    (queue.map Item.tasks).sum = 0 := by
  induction queue with
  | nil => rfl
  | cons item queue ih =>
    rw [List.map_cons, List.sum_cons, h item (by simp), ih fun item hi => h item (by simp [hi])]
    rfl

omit [DecidableEq K] in
/-- Some reader has got a batch and not put it yet, so not everything is read. -/
theorem not_read_holding {before after : List (Reader K R)} {task : Task K R}
    {rest : List (Task K R)} (hreaders : s.readers = before ++ ⟨some task, rest, .running⟩ :: after) :
    ¬s.Read := by
  intro hread
  have hnone := (readersTasks_mid hreaders hread.2.1).1
  rw [Reader.tasks_some] at hnone
  simp at hnone

omit [DecidableEq K] in
/-- Another phase. -/
theorem Sound.phased (hs : Sound s) {phase : Phase} (hread : phase = .joining → s.unread = [])
    (hjoined : (∃ n, phase = .stopping n) ∨ phase = .waiting ∨ phase = .returned →
      s.unread = [] ∧ s.readers = [])
    (hended : phase = .returned → ∀ w ∈ s.writers, w = .ended) :
    Sound { s with phase := phase } :=
  { hs with read := hread, joined := hjoined, allEnded := hended }

omit [DecidableEq K] in
/-- As long as there are readers. -/
theorem Sound.reading (hs : Sound s) {before after : List (Reader K R)} {r : Reader K R}
    (hr : s.readers = before ++ r :: after) : .stop ∉ s.queue ∧
      ¬((∃ n, s.phase = .stopping n) ∨ s.phase = .waiting ∨ s.phase = .returned) := by
  have hsome : s.readers ≠ [] := by
    rw [hr]
    simp
  exact ⟨fun hin => hsome (hs.stop hin).2, fun hphase => hsome (hs.joined hphase).2⟩

omit [DecidableEq K] in
/-- A reader goes on or ends. -/
theorem Sound.reads (hs : Sound s) {before after readers : List (Reader K R)} {r : Reader K R}
    (hr : s.readers = before ++ r :: after) (hrunning : ∀ z ∈ readers, z.status ≠ .failing)
    (htasks : s.readersTasks = 0 → (readers.map Reader.tasks).sum = 0) :
    Sound { s with readers := readers } := by
  obtain ⟨hstop, hphase⟩ := hs.reading hr
  have hread : s.Read → State.Read { s with readers := readers } :=
    fun h => ⟨h.1, htasks h.2.1, h.2.2⟩
  exact { hs with
    exited := fun hexit => hread (hs.exited hexit)
    ended := fun hend => hread (hs.ended hend)
    readers := hrunning
    stop := fun hin => absurd hin hstop
    joined := fun hj => absurd hj hphase }

omit [DecidableEq K] in
/-- An item is taken from the queue. -/
theorem Sound.popped (hs : Sound s) {item : Item K R} {queue : List (Item K R)}
    (hqueue : s.queue = item :: queue) : Sound { s with queue := queue } := by
  have hread : s.Read → State.Read { s with queue := queue } := by
    intro h
    have hsum := h.2.2
    rw [State.queueTasks, hqueue, List.map_cons, List.sum_cons] at hsum
    exact ⟨h.1, h.2.1, (add_eq_zero.mp hsum).2⟩
  have hstops := hs.stops
  rw [hqueue] at hstops
  exact { hs with
    exited := fun hexit => hread (hs.exited hexit)
    ended := fun hend => hread (hs.ended hend)
    stops := hstops.of_cons
    stop := fun hin => hs.stop (by rw [hqueue]; exact List.mem_cons_of_mem _ hin) }

omit [DecidableEq K] in
/-- A writer that is at work goes on or ends. -/
theorem Sound.writes (hs : Sound s) {before after : List (Writer K R)} {w w' : Writer K R}
    (hw : s.writers = before ++ w :: after) (hwork : w ≠ .ended) (hfine : w' ≠ .failing)
    (hend : w' = .ended → s.Read) : Sound { s with writers := before ++ w' :: after } := by
  refine { hs with
    writers := fun hin => hs.writers ?_
    ended := fun hin => ?_
    allEnded := fun hphase => absurd (hs.allEnded hphase w (by rw [hw]; simp)) hwork }
  · rw [hw]
    exact mem_mid hin hfine.symm
  · by_cases hnew : w' = .ended
    · exact hend hnew
    · apply hs.ended
      rw [hw]
      exact mem_mid hin (Ne.symm hnew)

/-- What the parent does. -/
theorem Sound.parent (hs : Sound s) (h : Step clients bound s .parent s') : Sound s' := by
  cases h with
  | look hphase =>
    apply hs.phased
    · intro hjoin
      by_cases hexit : s.exitEvent = true
      · exact (hs.exited hexit).1
      · simp [hexit] at hjoin
    · intro hj
      by_cases hexit : s.exitEvent = true <;> simp [hexit] at hj
    · intro ho
      by_cases hexit : s.exitEvent = true <;> simp [hexit] at ho
  | start hphase _ hunread =>
    have hnot : ¬s.Read := fun hread => by simp [hread.1] at hunread
    refine ⟨hs.dropped, fun hexit => absurd (hs.exited hexit) hnot, ?_, hs.writers,
      fun hend => absurd (hs.ended hend) hnot, hs.stops, fun hin => ?_, ?_, ?_, ?_⟩
    · intro r hr
      rcases List.mem_append.mp hr with hr | hr
      · exact hs.readers r hr
      · rw [List.mem_singleton.mp hr]
        simp [Reader.start]
    · simp [(hs.stop hin).1] at hunread
    · simp [hphase]
    · simp [hphase]
    · simp [hphase]
  | exhausted _ _ hunread => exact hs.phased (fun _ => hunread) (by simp) (by simp)
  | full | again => exact hs.phased (by simp) (by simp) (by simp)
  | drain => exact { hs with }
  | @reap before r after _ hr =>
    apply hs.reads hr
    · intro z hz
      apply hs.readers z
      rw [hr]
      exact List.mem_append.mpr ((List.mem_append.mp hz).imp_right (List.mem_cons_of_mem _))
    · exact fun h => (readersTasks_mid hr h).2
  | @discard item queue _ hexit hqueue =>
    have hsum := (hs.exited hexit).2.2
    rw [State.queueTasks, hqueue, List.map_cons, List.sum_cons] at hsum
    have hnone : item.tasks = 0 := (add_eq_zero.mp hsum).1
    exact { hs.popped hqueue with dropped := by simp [hs.dropped, hnone] }
  | joined hphase hr => exact hs.phased (by simp) (fun _ => ⟨hs.read hphase, hr⟩) (by simp)
  | skip hphase | stopped hphase =>
    exact hs.phased (by simp) (fun _ => hs.joined (.inl ⟨_, hphase⟩)) (by simp)
  | stop hphase =>
    have hover := hs.joined (.inl ⟨_, hphase⟩)
    have hread : s.Read → s.unread = [] ∧ s.readersTasks = 0 ∧
        ((s.queue ++ [Item.stop]).map Item.tasks).sum = 0 := by
      intro h
      refine ⟨h.1, h.2.1, ?_⟩
      rw [List.map_append, List.sum_append]
      exact add_eq_zero.mpr ⟨h.2.2, rfl⟩
    exact { hs with
      exited := fun hexit => hread (hs.exited hexit)
      ended := fun hend => hread (hs.ended hend)
      stops := List.pairwise_append.mpr ⟨hs.stops, by simp, by simp⟩
      stop := fun _ => hover
      read := by simp
      joined := fun _ => hover
      allEnded := by simp }
  | finish hphase hended =>
    have hdrained : Sound s.drained := { hs with }
    apply hdrained.phased
    · intro hj
      split at hj <;> cases hj
    · exact fun _ => hs.joined (.inr (.inl hphase))
    · exact fun _ => hended

/-- What a reader does. -/
theorem Sound.reader (hs : Sound s) (h : Step clients bound s .reader s') :
    s'.Failed ∨ Sound s' := by
  have hrunning {before after : List (Reader K R)} {r r' : Reader K R}
      (hr : s.readers = before ++ r :: after) (hr' : r'.status ≠ .failing) :
      ∀ z ∈ before ++ r' :: after, z.status ≠ .failing := by
    have hall := hs.readers
    rw [hr] at hall
    exact forall_mid hall hr'
  cases h with
  | @getBatch before task rest after hr =>
    refine .inr (hs.reads hr (hrunning hr (by simp)) fun h => ?_)
    rw [State.readersTasks, hr, sum_map_mid, Reader.tasks_cons] at h
    rw [sum_map_mid, h]
  | put hr =>
    have hnot := not_read_holding hr
    obtain ⟨hstop, hphase⟩ := hs.reading hr
    refine .inr { hs with
      exited := fun hexit => absurd (hs.exited hexit) hnot
      ended := fun hend => absurd (hs.ended hend) hnot
      readers := hrunning hr (by simp)
      stops := ?_
      stop := fun hin => ?_
      joined := fun hj => absurd hj hphase }
    · refine List.pairwise_append.mpr ⟨hs.stops, by simp, fun item hitem _ _ hsame => ?_⟩
      rw [hsame] at hitem
      exact absurd hitem hstop
    · rcases List.mem_append.mp hin with hin | hin
      · exact absurd hin hstop
      · simp at hin
  | giveUp hr hexit => exact absurd (hs.exited hexit) (not_read_holding hr)
  | @done before after hr =>
    refine .inr (hs.reads hr (hrunning hr (by simp [Reader.stopped])) fun h => ?_)
    rw [State.readersTasks, hr, sum_map_mid, Reader.tasks_nil] at h
    rw [sum_map_mid, Reader.tasks_stopped, h]
  | warn => exact .inr { hs with }
  | failReader hr =>
    have hphase := (hs.reading hr).2
    exact .inl ⟨.inl (by simp [State.failed]), fun hreturned => hphase (.inr (.inr hreturned))⟩
  | abortReader hr hfailing => exact absurd hfailing (hs.readers _ (by rw [hr]; simp))

/-- What a writer does. -/
theorem Sound.writer (hs : Sound s) (h : Step clients bound s .writer s') :
    s'.Failed ∨ Sound s' := by
  cases h with
  | take hw hqueue => exact .inr ((hs.popped hqueue).writes hw (by simp) (by simp) (by simp))
  | takeStop hw hqueue =>
    have hnext : s.unread = [] ∧ s.readers = [] := hs.stop (by rw [hqueue]; simp)
    have hstops := hs.stops
    rw [hqueue] at hstops
    refine .inr ((hs.popped hqueue).writes hw (by simp) (by simp) fun _ => ⟨hnext.1, ?_, ?_⟩)
    · change (s.readers.map Reader.tasks).sum = 0
      rw [hnext.2]
      rfl
    · exact queueTasks_stop fun item hitem => List.rel_of_pairwise_cons hstops hitem rfl
  | @acknowledge before task after hw =>
    have hwritten : Sound (s.written task) := { hs with }
    exact .inr (hwritten.writes hw (by simp) (by simp) (by simp))
  | leave hw hexit => exact .inr (hs.writes hw (by simp) (by simp) fun _ => hs.exited hexit)
  | @failWriter before w after _ hw hwork =>
    refine .inl ⟨.inl (by simp [State.failed]), fun hphase => ?_⟩
    have hended := hs.allEnded hphase w (by rw [hw]; simp)
    rw [hended] at hwork
    simp at hwork
  | abortWriter hw => exact absurd (by rw [hw]; simp) hs.writers

/-- A terminate signal that does no harm. -/
theorem Sound.interrupt (hs : Sound s) (hok : Harmless s .interrupt)
    (h : Step clients bound s .interrupt s') : s'.Failed ∨ Sound s' := by
  cases h with
  | abort hreturned =>
    rcases hok with hreport | ⟨hread, _⟩
    · exact .inl ⟨hreport, hreturned⟩
    · exact .inr { hs with exited := fun _ => hread }
  | terminate hreturned _ hseen =>
    rcases hok with hreport | ⟨hread, hwriters⟩
    · exact .inl ⟨hreport, hreturned⟩
    have hread' : s.unread = [] ∧
        ((s.readers.map fun _ => (Reader.stopped .ended : Reader K R)).map Reader.tasks).sum = 0 ∧
          s.queueTasks = 0 := ⟨hread.1, sum_map_stopped _ (Reader.tasks_stopped _) _, hread.2.2⟩
    have hdropped : s.dropped + s.readersTasks + s.writersTasks = 0 := by
      rw [hs.dropped, hread.2.1, hwriters hseen]
      rfl
    refine .inr { hs with
      dropped := hdropped
      exited := fun _ => hread'
      readers := fun r hr => ?_
      writers := by simp
      ended := fun _ => hread'
      stop := fun hin => ⟨hread.1, by simp [(hs.stop hin).2]⟩
      joined := fun hj => ⟨hread.1, by simp [(hs.joined hj).2]⟩
      allEnded := fun hphase => absurd hphase hreturned }
    obtain ⟨_, _, rfl⟩ := List.mem_map.mp hr
    simp [Reader.stopped]

theorem Sound.step (hs : Sound s) (hok : Harmless s e) (h : Step clients bound s e s') :
    s'.Failed ∨ Sound s' := by
  cases e with
  | parent => exact .inr (hs.parent h)
  | reader => exact hs.reader h
  | writer => exact hs.writer h
  | interrupt => exact hs.interrupt hok h

theorem kept_started (hclients : 0 < clients) : Kept sources (started sources clients) := by
  refine ⟨?_, fun _ => rfl, by simp [started], ?_⟩
  · simp [State.total, State.writersTasks, State.queueTasks, State.readersTasks,
      State.unreadTasks, started, Writer.tasks]
  · simp only [started, ne_eq, List.replicate_eq_nil_iff]
    omega

omit [DecidableEq K] in
theorem sound_started : Sound (started sources clients) := by
  constructor <;> simp [started]

/-- In a run whose terminate signals come too late to do harm, an import that returns is honest. -/
theorem honest_of_harmless (h : (machine sources clients bound).ReachedBy Harmless s) :
    Honest sources s := by
  have hinv : Kept sources s ∧ (s.Failed ∨ Sound s) := by
    refine Machine.ReachedBy.invariant (I := fun s => Kept sources s ∧ (s.Failed ∨ Sound s)) ?_ ?_ h
    · rintro s ⟨hclients, rfl⟩
      exact ⟨kept_started hclients, .inr sound_started⟩
    · rintro s e s' _ ⟨hkept, hfailed | hsound⟩ hok hstep
      · exact ⟨hkept.step hstep, .inl (hfailed.step hstep)⟩
      · exact ⟨hkept.step hstep, hsound.step hok hstep⟩
  intro hreturned
  obtain ⟨hkept, hfailed | hsound⟩ := hinv
  · exact absurd hreturned hfailed.2
  have hended := hsound.allEnded hreturned
  obtain ⟨w, hw⟩ := List.exists_mem_of_ne_nil _ hkept.manned
  have hread := hsound.ended (hended w hw ▸ hw)
  have hwriters : s.writersTasks = 0 := by
    have hnone : ∀ w ∈ s.writers, w.tasks = 0 := fun w hw => by rw [hended w hw]; rfl
    rw [State.writersTasks, List.map_congr_left hnone]
    simp
  have hall : s.acknowledged = tasksOf sources := by
    rw [← hkept.total, State.total, hwriters, hread.2.2, hread.2.1, hsound.dropped,
      State.unreadTasks, hread.1]
    simp [tasksOf]
  exact ⟨hall, fun table => by rw [hkept.counted table, hall]⟩

end Invariant

/-! ### Two runs -/

def oneBatch : List (List (Task ℕ ℕ)) := [[(0, [7])]]

theorem honest_of_harmless_done :
    ∃ s, (machine oneBatch 1 3).ReachedBy Harmless s ∧ s.phase = .returned ∧ Honest oneBatch s := by
  have run : ∀ {s s' : State ℕ ℕ} {e : Event}, (machine oneBatch 1 3).ReachedBy Harmless s →
      Step 1 3 s e s' → Harmless s e → (machine oneBatch 1 3).ReachedBy Harmless s' :=
    fun h hstep hok => .step h hok hstep
  have h : (machine oneBatch 1 3).ReachedBy Harmless (started oneBatch 1) :=
    .init ⟨Nat.one_pos, rfl⟩
  have h := run h (.look rfl) trivial
  have h := run h (.start rfl Nat.one_pos rfl) trivial
  have h := run h (.getBatch (rfl : _ = [] ++ _ :: [])) trivial
  have h := run h (.put (rfl : _ = [] ++ _ :: []) (by decide)) trivial
  have h := run h (.done (rfl : _ = [] ++ _ :: [])) trivial
  have h := run h (.full rfl le_rfl) trivial
  have h := run h (.reap (.inl rfl) (rfl : _ = [] ++ _ :: []) rfl) trivial
  have h := run h (.again rfl) trivial
  have h := run h (.look rfl) trivial
  have h := run h (.exhausted rfl Nat.one_pos rfl) trivial
  have h := run h (.joined rfl rfl) trivial
  have h := run h (.stop rfl (by decide)) trivial
  have h := run h (.stopped rfl) trivial
  have h := run h (.take (rfl : _ = [] ++ _ :: []) rfl) trivial
  have h := run h (.acknowledge (rfl : _ = [] ++ _ :: [])) trivial
  have h := run h (.takeStop (rfl : _ = [] ++ _ :: []) rfl) trivial
  have h := run h (.finish rfl (by simp)) trivial
  exact ⟨_, h, rfl, honest_of_harmless h⟩

/-- A terminate signal while a reader waits to put its batch: the import returns without it. -/
theorem silent_loss_reachable :
    ∃ s, (machine oneBatch 1 3).Reachable s ∧ s.phase = .returned ∧ ¬Honest oneBatch s := by
  have run : ∀ {s s' : State ℕ ℕ} {e : Event}, (machine oneBatch 1 3).Reachable s →
      Step 1 3 s e s' → (machine oneBatch 1 3).Reachable s' :=
    fun h hstep => .step h trivial hstep
  have h : (machine oneBatch 1 3).Reachable (started oneBatch 1) := .init ⟨Nat.one_pos, rfl⟩
  have h := run h (.look rfl)
  have h := run h (.start rfl Nat.one_pos rfl)
  have h := run h (.getBatch (rfl : _ = [] ++ _ :: []))
  have h := run h (.abort (by decide) (by decide) rfl)
  have h := run h (.giveUp (rfl : _ = [] ++ _ :: []) rfl)
  have h := run h (.full rfl le_rfl)
  have h := run h (.reap (.inl rfl) (rfl : _ = [] ++ _ :: []) rfl)
  have h := run h (.again rfl)
  have h := run h (.look rfl)
  have h := run h (.joined rfl rfl)
  have h := run h (.skip rfl rfl)
  have h := run h (.stopped rfl)
  have h := run h (.leave (rfl : _ = [] ++ _ :: []) rfl)
  have h := run h (.finish rfl (by simp))
  refine ⟨_, h, rfl, fun hhonest => ?_⟩
  have hnone : (0 : Multiset (Task ℕ ℕ)) = tasksOf oneBatch := (hhonest rfl).1
  simp [tasksOf, oneBatch] at hnone

end RethinkDB.Import.Pipeline
