import Mathlib.Logic.Function.Basic
import RethinkDB.Export.ExportTable
import RethinkDB.Lib.Machine

/-! `run_clients`: the loop that starts an `export_table` for each table, watches the error queue
and ends when all of them are dead. -/
namespace RethinkDB.Export.Statistics
open RethinkDB.Lib Function

/-- Where `run_clients` stands in its loop; in `reaping` it has still to look at so many. -/
inductive Phase (ι : Type) where
  | top | draining
  | reaping (left : List ι)
  | spawning | finished
  deriving Repr, DecidableEq

structure State (ι : Type) where
  procs : ι → Proc
  shared : Shared
  argLists : List ι
  processes : List ι
  errors : List String
  interrupted : Bool
  phase : Phase ι

variable {ι : Type} [DecidableEq ι]

/-- A step of the loop of `run_clients`. -/
def runClients (X : Setting ι) (s : State ι) : Option (State ι) :=
  match s.phase with
  | .top =>
    if s.processes = [] ∧ s.argLists = [] then some { s with phase := .finished }
    else some { s with phase := .draining }
  | .draining => match s.shared.errorQueue with
    | error :: rest =>
      some { s with
        shared := { s.shared with errorQueue := rest, exitEvent := true }
        errors := s.errors ++ [error] }
    | [] => some { s with phase := .reaping s.processes }
  | .reaping (i :: left) =>
    some { s with
      processes := if (s.procs i).stage.isAlive then s.processes else s.processes.erase i
      phase := .reaping left }
  | .reaping [] => some { s with phase := .spawning }
  | .spawning =>
    if s.processes.length < X.clients then match s.argLists with
      | i :: rest =>
        some { s with
          procs := update s.procs i { s.procs i with stage := .checking }
          argLists := rest, processes := s.processes ++ [i], phase := .top }
      | [] => some { s with phase := .top }
    else some { s with phase := .top }
  | .finished => none

inductive Event (ι : Type) where
  | parent
  | table (i : ι) (a : Action)
  | interrupt

def step (X : Setting ι) (s : State ι) : Event ι → Option (State ι)
  | .parent => runClients X s
  | .table i a => (exportTable X i s.shared (s.procs i) a).map fun r =>
      { s with procs := update s.procs i r.1, shared := r.2 }
  | .interrupt => some { s with interrupted := true, shared := { s.shared with exitEvent := true } }

def init (order : List ι) : State ι :=
  ⟨fun _ => ⟨.waiting, 0, 0⟩, ⟨0, 0, [], false⟩, order, [], [], false, .top⟩

def machine (X : Setting ι) : Machine (State ι) (Event ι) where
  init s := ∃ order : List ι, order.Nodup ∧ (∀ i, i ∈ order) ∧ s = init order
  step s e s' := step X s e = some s'

def run (X : Setting ι) (s : State ι) : List (Event ι) → Option (State ι)
  | [] => some s
  | e :: l => (step X s e).bind fun s' => run X s' l

theorem reachable_run {X : Setting ι} {s s' : State ι} {l : List (Event ι)}
    (hs : (machine X).Reachable s) (h : run X s l = some s') : (machine X).Reachable s' := by
  exact hs.run (fun _ => rfl) (fun _ _ _ => rfl) (fun _ _ _ hstep => hstep)
    (fun _ _ _ => trivial) h

/-! ### What a step can do -/

inductive Outcome (X : Setting ι) (s : State ι) : Event ι → State ι → Prop
  | finished : s.phase = .top → s.processes = [] → s.argLists = [] →
    Outcome X s .parent { s with phase := .finished }
  | looked : s.phase = .top → Outcome X s .parent { s with phase := .draining }
  | noticed (error : String) (rest : List String) : s.phase = .draining →
    s.shared.errorQueue = error :: rest →
    Outcome X s .parent
      { s with
        shared := { s.shared with errorQueue := rest, exitEvent := true }
        errors := s.errors ++ [error] }
  | drained : s.phase = .draining → Outcome X s .parent { s with phase := .reaping s.processes }
  | kept (i : ι) (left : List ι) : s.phase = .reaping (i :: left) →
    Outcome X s .parent { s with phase := .reaping left }
  | reaped (i : ι) (left : List ι) : s.phase = .reaping (i :: left) →
    (s.procs i).stage.isAlive = false →
    Outcome X s .parent { s with processes := s.processes.erase i, phase := .reaping left }
  | reviewed : s.phase = .reaping [] → Outcome X s .parent { s with phase := .spawning }
  | spawned (i : ι) (rest : List ι) : s.phase = .spawning → s.argLists = i :: rest →
    Outcome X s .parent
      { s with
        procs := update s.procs i { s.procs i with stage := .checking }
        argLists := rest, processes := s.processes ++ [i], phase := .top }
  | waited : s.phase = .spawning → Outcome X s .parent { s with phase := .top }
  | moved (i : ι) (a : Action) (p : Proc) (sh : Shared) : Moves X i s.shared (s.procs i) a p sh →
    Outcome X s (.table i a) { s with procs := update s.procs i p, shared := sh }
  | interrupted :
    Outcome X s .interrupt
      { s with interrupted := true, shared := { s.shared with exitEvent := true } }

theorem step_outcome {X : Setting ι} {s s' : State ι} {e : Event ι} (h : step X s e = some s') :
    Outcome X s e s' := by
  cases e with
  | parent =>
    simp only [step, runClients] at h
    split at h
    · rename_i hphase
      split at h
      · rename_i hempty
        cases h
        exact .finished hphase hempty.1 hempty.2
      · cases h
        exact .looked hphase
    · rename_i hphase
      split at h
      · rename_i hqueue
        cases h
        exact .noticed _ _ hphase hqueue
      · cases h
        exact .drained hphase
    · rename_i i left hphase
      cases h
      split
      · exact .kept i left hphase
      · rename_i hdead
        exact .reaped i left hphase (Bool.not_eq_true _ ▸ hdead)
    · rename_i hphase
      cases h
      exact .reviewed hphase
    · rename_i hphase
      split at h
      · split at h
        · rename_i hargs
          cases h
          exact .spawned _ _ hphase hargs
        · cases h
          exact .waited hphase
      · cases h
        exact .waited hphase
    · cases h
  | table i a =>
    simp only [step] at h
    obtain ⟨r, hr, hs'⟩ := Option.map_eq_some_iff.mp h
    cases hs'
    exact .moved i a r.1 r.2 (exportTable_moves hr)
  | interrupt =>
    cases h
    exact .interrupted

/-! ### Processes and errors -/

/-- A table waits in `arg_lists`, or has a process that is listed until it is dead. -/
structure Listed (s : State ι) : Prop where
  nodup : s.argLists.Nodup
  waits : ∀ i, i ∈ s.argLists ↔ (s.procs i).stage = .waiting
  listed : ∀ i, i ∈ s.argLists ∨ i ∈ s.processes ∨ (s.procs i).stage.isAlive = false
  finished : s.phase = .finished → s.processes = [] ∧ s.argLists = []

theorem Listed.step {X : Setting ι} {s s' : State ι} {e : Event ι} (hs : Listed s)
    (h : Outcome X s e s') : Listed s' := by
  obtain ⟨hnodup, hwaits, hlisted, hfinished⟩ := hs
  cases h with
  | finished _ hprocesses hargs => exact ⟨hnodup, hwaits, hlisted, fun _ => ⟨hprocesses, hargs⟩⟩
  | looked | noticed | drained | kept | reviewed | waited =>
    exact ⟨hnodup, hwaits, hlisted, by simp [*]⟩
  | interrupted => exact ⟨hnodup, hwaits, hlisted, hfinished⟩
  | reaped i left hphase hdead =>
    constructor
    · exact hnodup
    · exact hwaits
    · intro j
      by_cases hji : j = i
      · exact .inr (.inr (hji ▸ hdead))
      · exact (hlisted j).imp id (Or.imp (List.mem_erase_of_ne hji).mpr id)
    · simp
  | spawned i rest hphase hargs =>
    rw [hargs] at hnodup hwaits hlisted
    obtain ⟨hfresh, hrest⟩ := List.nodup_cons.mp hnodup
    constructor
    · exact hrest
    · intro j
      by_cases hji : j = i
      · subst hji
        simp [hfresh]
      · have := hwaits j
        simpa [hji] using this
    · intro j
      by_cases hji : j = i
      · exact .inr (.inl (by simp [hji]))
      · dsimp only
        rw [update_of_ne hji]
        exact (hlisted j).imp (fun h => (List.mem_cons.mp h).resolve_left hji)
          (Or.imp (List.mem_append_left _) id)
    · simp
  | moved i a p sh hmoves =>
    obtain ⟨hold, hnew, halive⟩ := hmoves.awake
    constructor
    · exact hnodup
    · intro j
      by_cases hji : j = i
      · subst hji
        simp [hnew, (hwaits j).not.mpr hold]
      · simpa [hji] using hwaits j
    · intro j
      by_cases hji : j = i
      · subst hji
        rcases hlisted j with h | h | h
        · exact .inl h
        · exact .inr (.inl h)
        · rw [halive] at h
          cases h
      · simpa [hji] using hlisted j
    · exact hfinished

/-- An error is on the queue or has been seen, and only an error or an interrupt sets the exit
event. -/
structure Noticed (s : State ι) : Prop where
  failed : ∀ i, (s.procs i).stage.how = some .failed → s.shared.errorQueue ≠ [] ∨ s.errors ≠ []
  bailed : ∀ i, (s.procs i).stage.how = some .bailed → s.shared.exitEvent = true
  exit : s.shared.exitEvent = true → s.interrupted = true ∨ s.errors ≠ []

theorem Noticed.step {X : Setting ι} {s s' : State ι} {e : Event ι} (hs : Noticed s)
    (h : Outcome X s e s') : Noticed s' := by
  obtain ⟨hfailed, hbailed, hexit⟩ := hs
  cases h with
  | finished | looked | drained | kept | reaped | reviewed | waited => exact ⟨hfailed, hbailed, hexit⟩
  | noticed error rest =>
    exact ⟨fun _ _ => .inr (by simp), fun _ _ => rfl, fun _ => .inr (by simp)⟩
  | interrupted => exact ⟨hfailed, fun _ _ => rfl, fun _ => .inl rfl⟩
  | spawned i rest =>
    constructor
    · intro j hj
      by_cases hji : j = i
      · subst hji
        simp [Stage.how] at hj
      · exact hfailed j (by simpa [hji] using hj)
    · intro j hj
      by_cases hji : j = i
      · subst hji
        simp [Stage.how] at hj
      · exact hbailed j (by simpa [hji] using hj)
    · exact hexit
  | moved i a p sh hmoves =>
    obtain ⟨hputs, hleaves, hsame, hqueue⟩ := hmoves.puts
    have hkeeps (h : s.shared.errorQueue ≠ [] ∨ s.errors ≠ []) : sh.errorQueue ≠ [] ∨ s.errors ≠ [] :=
      h.imp (mt hqueue) id
    constructor
    · intro j hj
      by_cases hji : j = i
      · subst hji
        dsimp only at hj
        rw [update_self] at hj
        exact (hputs hj).elim (fun h => hkeeps (hfailed j h)) .inl
      · exact hkeeps (hfailed j (by simpa [hji] using hj))
    · intro j hj
      dsimp only
      rw [hsame]
      by_cases hji : j = i
      · subst hji
        dsimp only at hj
        rw [update_self] at hj
        exact (hleaves hj).elim (hbailed j) id
      · exact hbailed j (by simpa [hji] using hj)
    · intro h
      exact hexit (hsame ▸ h)

theorem Outcome.published {X : Setting ι} {s s' : State ι} {e : Event ι} (h : Outcome X s e s')
    (hlisted : Listed s) (hs : ∀ i, (s.procs i).Published) (i : ι) : (s'.procs i).Published := by
  cases h with
  | spawned j rest hphase hargs =>
    have hwaiting : (s.procs j).stage = .waiting := (hlisted.waits j).mp (by simp [hargs])
    by_cases hij : i = j
    · subst hij
      have := hs i
      simpa [Proc.Published, hwaiting] using this
    · simpa [hij] using hs i
  | moved j a p sh hmoves =>
    by_cases hij : i = j
    · subst hij
      simpa using hmoves.published (hs i)
    · simpa [hij] using hs i
  | _ => exact hs i

/-- A process that is to write the hook counter back has seen a write hook. -/
def Asked (X : Setting ι) (s : State ι) : Prop :=
  ∀ i r, (s.procs i).stage = .hook r → X.writeHook i = true

theorem Asked.step {X : Setting ι} {s s' : State ι} {e : Event ι} (hs : Asked X s)
    (h : Outcome X s e s') : Asked X s' := by
  intro j r hj
  cases h with
  | spawned i rest hphase hargs =>
    by_cases hji : j = i
    · subst hji
      simp at hj
    · exact hs j r (by simpa [hji] using hj)
  | moved i a p sh hmoves =>
    by_cases hji : j = i
    · subst hji
      dsimp only at hj
      rw [update_self] at hj
      cases hmoves with
      | asked hstage hhook => exact hhook
      | writerFailed => exact hs j r hj
      | row hstage => simp [Proc.put, hstage] at hj
      | _ => cases hj
    · exact hs j r (by simpa [hji] using hj)
  | _ => exact hs j r hj

/-- What holds in every run. -/
structure Orderly (X : Setting ι) (s : State ι) : Prop where
  listed : Listed s
  noticed : Noticed s
  published : ∀ i, (s.procs i).Published
  asked : Asked X s

theorem orderly_reachable {X : Setting ι} {s : State ι} (hs : (machine X).Reachable s) :
    Orderly X s := by
  apply Machine.ReachedBy.invariant (I := Orderly X) _ _ hs
  · rintro s ⟨order, hnodup, hall, rfl⟩
    constructor
    · exact ⟨hnodup, by simp [init, hall], fun i => .inl (hall i), by simp [init]⟩
    · exact ⟨by simp [init, Stage.how], by simp [init, Stage.how], by simp [init]⟩
    · simp [init, Proc.Published]
    · simp [init, Asked]
  · intro s e s' _ hs _ hstep
    have houtcome := step_outcome hstep
    exact ⟨hs.listed.step houtcome, hs.noticed.step houtcome,
      houtcome.published hs.listed hs.published, hs.asked.step houtcome⟩

def Steady (s : State ι) : Prop := ∀ i, (s.procs i).stage.how ≠ some .failed

theorem steady_of_step {X : Setting ι} {s s' : State ι} {e : Event ι} (h : Outcome X s e s')
    (hlisted : Listed s) (hs' : Steady s') : Steady s := by
  intro j hj
  have hj' := hs' j
  cases h with
  | spawned i rest hphase hargs =>
    by_cases hji : j = i
    · subst hji
      rw [(hlisted.waits j).mp (by simp [hargs])] at hj
      cases hj
    · exact hj' (by simpa [hji] using hj)
  | moved i a p sh hmoves =>
    by_cases hji : j = i
    · subst hji
      exact hj' (by simpa using hmoves.stays_failed hj)
    · exact hj' (by simpa [hji] using hj)
  | _ => exact hj' hj

def Succeeded (s : State ι) : Prop := s.phase = .finished ∧ s.errors = [] ∧ s.interrupted = false

omit [DecidableEq ι] in
/-- The version check of each table that is not exported has raised. -/
theorem Succeeded.stages {X : Setting ι} {s : State ι} (hs : Succeeded s) (ho : Orderly X s)
    (hqueue : s.shared.errorQueue = []) (i : ι) :
    (s.procs i).stage = .dead .done ∨ (s.procs i).stage = .dead .unchecked := by
  obtain ⟨hphase, herrors, hinterrupted⟩ := hs
  obtain ⟨hprocesses, hargs⟩ := ho.listed.finished hphase
  have hdead : (s.procs i).stage.isAlive = false := by
    have := ho.listed.listed i
    simpa [hprocesses, hargs] using this
  cases hstage : (s.procs i).stage with
  | dead how =>
    cases how with
    | done => exact .inl rfl
    | unchecked => exact .inr rfl
    | failed => exact absurd (ho.noticed.failed i (by rw [hstage]; rfl)) (by simp [hqueue, herrors])
    | bailed =>
      have hexit := ho.noticed.bailed i (by rw [hstage]; rfl)
      exact absurd (ho.noticed.exit hexit) (by simp [hinterrupted, herrors])
  | _ => simp [hstage, Stage.isAlive] at hdead

omit [DecidableEq ι] in
theorem Succeeded.steady {X : Setting ι} {s : State ι} (hs : Succeeded s) (ho : Orderly X s)
    (hqueue : s.shared.errorQueue = []) : Steady s := by
  intro i
  rcases hs.stages ho hqueue i with hstage | hstage <;> simp [hstage, Stage.how]

/-- The parent leaves its loop with an error on the queue. -/
def Unseen (s : State ι) (e : Event ι) : Prop :=
  e = .parent ∧ s.phase = .top ∧ s.processes = [] ∧ s.argLists = [] ∧ s.shared.errorQueue ≠ []

/-- An error that comes after the parent's last look is still on the queue when it leaves. -/
theorem queue_of_finished {X : Setting ι} {ok : State ι → Event ι → Prop}
    (hok : ∀ s e, ok s e → ¬Unseen s e) {s : State ι} (hs : (machine X).ReachedBy ok s)
    (hphase : s.phase = .finished) : s.shared.errorQueue = [] := by
  revert hphase
  apply Machine.ReachedBy.invariant
    (I := fun s => s.phase = .finished → s.shared.errorQueue = []) _ _ hs
  · rintro s ⟨order, -, -, rfl⟩ _
    rfl
  · intro s e s' hreached hs hstepOk hstep hphase
    have hlisted := (orderly_reachable (hreached.mono (fun _ _ _ => trivial))).listed
    cases step_outcome hstep with
    | finished htop hprocesses hargs =>
      by_contra hqueue
      exact hok s .parent hstepOk ⟨rfl, htop, hprocesses, hargs, hqueue⟩
    | moved i a p sh hmoves =>
      obtain ⟨hprocesses, hargs⟩ := hlisted.finished hphase
      have hdead := hlisted.listed i
      simp [hprocesses, hargs, hmoves.awake.2.2] at hdead
    | interrupted => exact hs hphase
    | kept | reaped | reviewed | spawned | waited | looked | noticed | drained => simp_all

end RethinkDB.Export.Statistics
