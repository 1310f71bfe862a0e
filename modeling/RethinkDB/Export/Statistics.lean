import Mathlib.Algebra.BigOperators.Ring.Finset
import RethinkDB.Export.RunClients
import RethinkDB.Lib.Counter

/-! The totals that `run_clients` prints: the rows of each table, the secondary indexes and the
write hooks. -/
namespace RethinkDB.Export.Statistics
open RethinkDB.Lib Function

variable {ι : Type}

/-! ### The counters -/

def Stage.sindexRead : Stage → Option ℕ
  | .sindex read => some read
  | _ => none

def Stage.hookRead : Stage → Option ℕ
  | .hook read => some read
  | _ => none

/-- How often the process has added its indexes. -/
def Stage.sindexTimes : Stage → ℕ
  | .hooks | .hook _ | .writing => 1
  | .exporting | .finishing .done | .finishing .bailed | .dead .done | .dead .bailed => 2
  | _ => 0

/-- How often the process has looked for a write hook and counted it. -/
def Stage.hookTimes : Stage → ℕ
  | .writing | .exporting | .finishing .done | .finishing .bailed | .dead .done | .dead .bailed => 1
  | _ => 0

section
variable (value : Shared → ℕ) (read : Stage → Option ℕ) (times : Stage → ℕ) (share : ι → ℕ)

/-- One of the counters, with what each process has read of it and added to it. -/
def tally (s : State ι) : Counter ι where
  value := value s.shared
  reads i := read (s.procs i).stage
  added i := times (s.procs i).stage * share i

variable {value read times share} {s : State ι} {i : ι} {p : Proc} {sh : Shared} [DecidableEq ι]

theorem stages_update {α : Type} (f : ι → Stage → α) :
    (fun j => f j (update s.procs i p j).stage) =
      update (fun j => f j (s.procs j).stage) i (f i p.stage) := by
  funext j
  by_cases hji : j = i
  · subst hji
    rw [update_self, update_self]
  · rw [update_of_ne hji, update_of_ne hji]

theorem tally_skip (hvalue : value sh = value s.shared) (hread : read p.stage = read (s.procs i).stage)
    (htimes : times p.stage * share i = times (s.procs i).stage * share i) :
    tally value read times share { s with procs := update s.procs i p, shared := sh } =
      tally value read times share s := by
  have hreads := stages_update (s := s) (i := i) (p := p) (fun _ => read)
  have hadded := stages_update (s := s) (i := i) (p := p) (fun j st => times st * share j)
  rw [hread, update_eq_self] at hreads
  rw [htimes, update_eq_self] at hadded
  exact Counter.ext hvalue hreads hadded

theorem tally_load (hvalue : value sh = value s.shared) (hread : read p.stage = some (value s.shared))
    (htimes : times p.stage = times (s.procs i).stage) :
    tally value read times share { s with procs := update s.procs i p, shared := sh } =
      (tally value read times share s).apply (.load i) := by
  have hreads := stages_update (s := s) (i := i) (p := p) (fun _ => read)
  have hadded := stages_update (s := s) (i := i) (p := p) (fun j st => times st * share j)
  rw [hread] at hreads
  rw [htimes, update_eq_self] at hadded
  exact Counter.ext hvalue hreads hadded

theorem tally_store {r : ℕ} (hold : read (s.procs i).stage = some r)
    (hvalue : value sh = r + share i) (hread : read p.stage = none)
    (htimes : times p.stage = times (s.procs i).stage + 1) :
    tally value read times share { s with procs := update s.procs i p, shared := sh } =
      (tally value read times share s).apply (.store i (share i)) := by
  have hreads := stages_update (s := s) (i := i) (p := p) (fun _ => read)
  have hadded := stages_update (s := s) (i := i) (p := p) (fun j st => times st * share j)
  rw [hread] at hreads
  rw [htimes, Nat.succ_mul] at hadded
  have hstore : (tally value read times share s).apply (.store i (share i)) =
      ⟨r + share i, update (fun j => read (s.procs j).stage) i none,
        update (fun j => times (s.procs j).stage * share j) i
          (times (s.procs i).stage * share i + share i)⟩ := by
    simp only [Counter.apply, tally, hold]
  rw [hstore]
  exact Counter.ext hvalue hreads hadded

theorem tally_add (hvalue : value sh = value s.shared + share i)
    (hread : read p.stage = read (s.procs i).stage)
    (htimes : times p.stage = times (s.procs i).stage + 1) :
    tally value read times share { s with procs := update s.procs i p, shared := sh } =
      (tally value read times share s).apply (.add i (share i)) := by
  have hreads := stages_update (s := s) (i := i) (p := p) (fun _ => read)
  have hadded := stages_update (s := s) (i := i) (p := p) (fun j st => times st * share j)
  rw [hread, update_eq_self] at hreads
  rw [htimes, Nat.succ_mul] at hadded
  exact Counter.ext hvalue hreads hadded

end

def sindexes (X : Setting ι) : State ι → Counter ι :=
  tally Shared.sindexCounter Stage.sindexRead Stage.sindexTimes X.indexes

/-- A table's share of the hook counter. -/
def Setting.hooks (X : Setting ι) (i : ι) : ℕ := (X.writeHook i).toNat

def hooks (X : Setting ι) : State ι → Counter ι :=
  tally Shared.hookCounter Stage.hookRead Stage.hookTimes X.hooks

def sindexOp (X : Setting ι) (s : State ι) : Event ι → Counter.Op ι
  | .table i .next => match (s.procs i).stage with
    | .starting => .load i
    | .sindex _ => .store i (X.indexes i)
    | .writing => .add i (X.indexes i)
    | _ => .skip
  | _ => .skip

def hookOp (X : Setting ι) (s : State ι) : Event ι → Counter.Op ι
  | .table i .next => match (s.procs i).stage with
    | .hooks => if X.writeHook i then .load i else .skip
    | .hook _ => .store i (X.hooks i)
    | _ => .skip
  | _ => .skip

/-- A process writes the hook counter back while another has read it and not yet done so. -/
def Races (s : State ι) (e : Event ι) : Prop :=
  ∃ i j ri rj, e = .table i .next ∧ (s.procs i).stage = .hook ri ∧ j ≠ i ∧
    (s.procs j).stage = .hook rj

def Counts (X : Setting ι) (s : State ι) (e : Event ι) : Prop :=
  ∃ i r, e = .table i .next ∧ (s.procs i).stage = .sindex r ∧ X.indexes i ≠ 0

/-- A process writes the index counter while another is between its read and its write. -/
def Mixes (s : State ι) (e : Event ι) : Prop :=
  ∃ i j r, e = .table i .next ∧
    ((∃ ri, (s.procs i).stage = .sindex ri) ∨ (s.procs i).stage = .writing) ∧ j ≠ i ∧
    (s.procs j).stage = .sindex r

theorem alone_hooks {X : Setting ι} {s : State ι} {e : Event ι} (h : ¬Races s e) :
    (hooks X s).Alone (hookOp X s e) := by
  unfold hookOp
  split
  · rename_i i
    split
    · split <;> trivial
    · rename_i r hstage
      intro j hj
      cases hread : (s.procs j).stage with
      | hook rj => exact absurd ⟨i, j, r, rj, rfl, hstage, hj, hread⟩ h
      | _ => exact congrArg Stage.hookRead hread
    · trivial
  · trivial

theorem alone_sindexes {X : Setting ι} {s : State ι} {e : Event ι} (h : ¬Mixes s e) :
    (sindexes X s).Alone (sindexOp X s e) := by
  unfold sindexOp
  split
  · rename_i i
    split
    · trivial
    · rename_i ri hstage
      intro j hj
      cases hread : (s.procs j).stage with
      | sindex r => exact absurd ⟨i, j, r, rfl, .inl ⟨ri, hstage⟩, hj, hread⟩ h
      | _ => exact congrArg Stage.sindexRead hread
    · rename_i hstage
      intro j
      cases hread : (s.procs j).stage with
      | sindex r =>
        have hj : j ≠ i := by
          rintro rfl
          rw [hstage] at hread
          cases hread
        exact absurd ⟨i, j, r, rfl, .inr hstage, hj, hread⟩ h
      | _ => exact congrArg Stage.sindexRead hread
    · trivial
  · trivial

/-- The hook counter is written back by a process that has seen a write hook. -/
theorem store_pos {X : Setting ι} {s : State ι} {e : Event ι} (hs : Asked X s) {j : ι} {n : ℕ}
    (hop : hookOp X s e = .store j n) : 0 < n := by
  unfold hookOp at hop
  split at hop
  · rename_i k
    split at hop
    · split at hop <;> cases hop
    · rename_i r hstage
      cases hop
      simp [Setting.hooks, hs _ r hstage]
    · cases hop
  · cases hop

section
variable [DecidableEq ι]

theorem sindexes_moved {X : Setting ι} {s : State ι} {i : ι} {a : Action} {p : Proc} {sh : Shared}
    (h : Moves X i s.shared (s.procs i) a p sh) (hp : p.stage.how ≠ some .failed) :
    sindexes X { s with procs := update s.procs i p, shared := sh } =
      (sindexes X s).apply (sindexOp X s (.table i a)) := by
  have hskip (hop : sindexOp X s (.table i a) = .skip)
      (hvalue : sh.sindexCounter = s.shared.sindexCounter)
      (hread : p.stage.sindexRead = (s.procs i).stage.sindexRead)
      (htimes : p.stage.sindexTimes = (s.procs i).stage.sindexTimes) :
      sindexes X { s with procs := update s.procs i p, shared := sh } =
        (sindexes X s).apply (sindexOp X s (.table i a)) := by
    rw [hop]
    exact tally_skip hvalue hread (congrArg (· * X.indexes i) htimes)
  cases h with
  | read hstage =>
    have hop : sindexOp X s (.table i .next) = .load i := by simp [sindexOp, hstage]
    rw [hop]
    exact tally_load rfl rfl (by simp [hstage, Stage.sindexTimes])
  | counted r hstage =>
    have hop : sindexOp X s (.table i .next) = .store i (X.indexes i) := by simp [sindexOp, hstage]
    rw [hop]
    exact tally_store (by rw [hstage]; rfl) rfl rfl (by simp [hstage, Stage.sindexTimes])
  | written hstage =>
    have hop : sindexOp X s (.table i .next) = .add i (X.indexes i) := by simp [sindexOp, hstage]
    rw [hop]
    exact tally_add rfl (by simp [hstage, Stage.sindexRead]) (by simp [hstage, Stage.sindexTimes])
  | failed => exact absurd rfl hp
  | writerFailed => exact hskip rfl rfl rfl rfl
  | checked hstage | asked hstage | unhooked hstage | hooked r hstage | row hstage | done hstage
  | bailed hstage | unchecked hstage =>
    exact hskip (by simp [sindexOp, hstage]) rfl (by simp [hstage, Stage.sindexRead, Proc.put])
      (by simp [hstage, Stage.sindexTimes, Proc.put])
  | exited how hstage =>
    exact hskip rfl rfl (by simp [hstage, Stage.sindexRead])
      (by cases how <;> simp [hstage, Stage.sindexTimes])

theorem hooks_moved {X : Setting ι} {s : State ι} {i : ι} {a : Action} {p : Proc} {sh : Shared}
    (h : Moves X i s.shared (s.procs i) a p sh) (hs : Asked X s) (hp : p.stage.how ≠ some .failed) :
    hooks X { s with procs := update s.procs i p, shared := sh } =
      (hooks X s).apply (hookOp X s (.table i a)) := by
  have hskip (hop : hookOp X s (.table i a) = .skip)
      (hvalue : sh.hookCounter = s.shared.hookCounter)
      (hread : p.stage.hookRead = (s.procs i).stage.hookRead)
      (htimes : p.stage.hookTimes = (s.procs i).stage.hookTimes) :
      hooks X { s with procs := update s.procs i p, shared := sh } =
        (hooks X s).apply (hookOp X s (.table i a)) := by
    rw [hop]
    exact tally_skip hvalue hread (congrArg (· * X.hooks i) htimes)
  cases h with
  | asked hstage hhook =>
    have hop : hookOp X s (.table i .next) = .load i := by simp [hookOp, hstage, hhook]
    rw [hop]
    exact tally_load rfl rfl (by simp [hstage, Stage.hookTimes])
  | unhooked hstage hhook =>
    have hop : hookOp X s (.table i .next) = .skip := by simp [hookOp, hstage, hhook]
    rw [hop]
    exact tally_skip rfl (by simp [hstage, Stage.hookRead]) (by simp [Setting.hooks, hhook])
  | hooked r hstage =>
    have hop : hookOp X s (.table i .next) = .store i (X.hooks i) := by simp [hookOp, hstage]
    rw [hop]
    exact tally_store (by rw [hstage]; rfl) (by simp [Setting.hooks, hs i r hstage]) rfl
      (by simp [hstage, Stage.hookTimes])
  | failed => exact absurd rfl hp
  | writerFailed => exact hskip rfl rfl rfl rfl
  | checked hstage | read hstage | counted r hstage | written hstage | row hstage | done hstage
  | bailed hstage | unchecked hstage =>
    exact hskip (by simp [hookOp, hstage]) rfl (by simp [hstage, Stage.hookRead, Proc.put])
      (by simp [hstage, Stage.hookTimes, Proc.put])
  | exited how hstage =>
    exact hskip rfl rfl (by simp [hstage, Stage.hookRead])
      (by cases how <;> simp [hstage, Stage.hookTimes])

/-- A step is an operation of both counters. -/
theorem Outcome.counters {X : Setting ι} {s s' : State ι} {e : Event ι} (h : Outcome X s e s')
    (hs : Orderly X s) (hs' : Steady s') :
    sindexes X s' = (sindexes X s).apply (sindexOp X s e) ∧
      hooks X s' = (hooks X s).apply (hookOp X s e) := by
  cases h with
  | moved i a p sh hmoves =>
    have hp : p.stage.how ≠ some .failed := by simpa using hs' i
    exact ⟨sindexes_moved hmoves hp, hooks_moved hmoves hs.asked hp⟩
  | spawned i rest hphase hargs =>
    have hwaiting : (s.procs i).stage = .waiting := (hs.listed.waits i).mp (by simp [hargs])
    constructor
    · exact @tally_skip _ _ _ _ _ s i _ s.shared _ rfl (by simp [hwaiting, Stage.sindexRead])
        (by simp [hwaiting, Stage.sindexTimes])
    · exact @tally_skip _ _ _ _ _ s i _ s.shared _ rfl (by simp [hwaiting, Stage.hookRead])
        (by simp [hwaiting, Stage.hookTimes])
  | _ => exact ⟨rfl, rfl⟩

/-- What the operations on the counters keep holds in every run, until a process fails. -/
theorem steady_invariant {X : Setting ι} {ok : State ι → Event ι → Prop} {I : State ι → Prop}
    (hinit : ∀ order, I (init order))
    (hop : ∀ s e s', ok s e → Orderly X s → I s →
      sindexes X s' = (sindexes X s).apply (sindexOp X s e) →
      hooks X s' = (hooks X s).apply (hookOp X s e) → I s')
    {s : State ι} (hs : (machine X).ReachedBy ok s) (hsteady : Steady s) : I s := by
  revert hsteady
  apply Machine.ReachedBy.invariant (I := fun s => Steady s → I s) _ _ hs
  · rintro s ⟨order, -, -, rfl⟩ _
    exact hinit order
  · intro s e s' hreached hs hok hstep hsteady
    have houtcome := step_outcome hstep
    have ho := orderly_reachable (hreached.mono (fun _ _ _ => trivial))
    obtain ⟨hindexes, hhooks⟩ := houtcome.counters ho hsteady
    exact hop s e s' hok ho (hs (steady_of_step houtcome ho.listed hsteady)) hindexes hhooks

end

/-! ### The totals -/

section
variable [Fintype ι]

def State.exported (s : State ι) : Finset ι :=
  Finset.univ.filter fun i => (s.procs i).stage = .dead .done

/-- What is printed: the sum of the row counters, and the two other counters. -/
structure Exact (X : Setting ι) (s : State ι) : Prop where
  rows : ∑ i, (s.procs i).progress = ∑ i ∈ s.exported, (s.procs i).readRows
  sindexes : s.shared.sindexCounter = ∑ i ∈ s.exported, X.indexes i
  hooks : s.shared.hookCounter = (s.exported.filter fun i => X.writeHook i = true).card

section
variable {X : Setting ι} {s : State ι} (hs : Succeeded s) (ho : Orderly X s)
  (hqueue : s.shared.errorQueue = [])
include hs ho hqueue

theorem Succeeded.rows :
    ∑ i, (s.procs i).progress = ∑ i ∈ s.exported, (s.procs i).readRows := by
  rw [State.exported, Finset.sum_filter]
  apply Finset.sum_congr rfl
  intro i _
  have hpublished := ho.published i
  rcases hs.stages ho hqueue i with hstage | hstage <;>
    simpa [Proc.Published, hstage] using hpublished

theorem Succeeded.total {value : Shared → ℕ} {read : Stage → Option ℕ} {times : Stage → ℕ}
    {share : ι → ℕ} (hun : times (.dead .unchecked) = 0) :
    (tally value read times share s).total = times (.dead .done) * ∑ i ∈ s.exported, share i := by
  rw [State.exported, Finset.sum_filter, Finset.mul_sum]
  apply Finset.sum_congr rfl
  intro i _
  rcases hs.stages ho hqueue i with hstage | hstage <;> simp [tally, hstage, hun]

theorem Succeeded.sindexes_total : (sindexes X s).total = 2 * ∑ i ∈ s.exported, X.indexes i :=
  hs.total ho hqueue rfl

theorem Succeeded.hooks_total :
    (hooks X s).total = (s.exported.filter fun i => X.writeHook i = true).card := by
  rw [Finset.card_filter]
  refine (hs.total ho hqueue rfl).trans ?_
  rw [Stage.hookTimes, Nat.one_mul]
  apply Finset.sum_congr rfl
  intro i _
  cases hhook : X.writeHook i <;> simp [Setting.hooks, hhook]

end

theorem total_init {value : Shared → ℕ} {read : Stage → Option ℕ} {times : Stage → ℕ}
    {share : ι → ℕ} (order : List ι) (hwaiting : times .waiting = 0) :
    (tally value read times share (init order)).total = 0 := by
  simp [Counter.total, tally, init, hwaiting]

/-- A table that has added its indexes once, and nothing with them, has none to add again. -/
theorem amount_zero {X : Setting ι} {s : State ι} {e : Event ι} (h : ¬Counts X s e)
    (htotal : (sindexes X s).total = 0) : (sindexOp X s e).amount = 0 := by
  unfold sindexOp
  split
  · rename_i i
    split
    · rfl
    · rename_i r hstage
      by_contra hne
      exact h ⟨i, r, rfl, hstage, hne⟩
    · rename_i hstage
      have hzero := Finset.sum_eq_zero_iff.mp htotal i (Finset.mem_univ i)
      simpa [sindexes, tally, hstage, Stage.sindexTimes, Counter.Op.amount] using hzero
    · rfl
  · rfl

/-- The count of `j`, or one before it, is lost. -/
def Doomed (X : Setting ι) (j : ι) (s : State ι) : Prop :=
  Steady s → (hooks X s).Stale j ∨ (hooks X s).Lost 1

/-- A process that has read the hook counter does not read it again. -/
theorem hookOp_ne_load {X : Setting ι} {s : State ι} {e : Event ι} {j : ι}
    (hs : (hooks X s).Stale j) : hookOp X s e ≠ .load j := by
  obtain ⟨r, hr, -⟩ := hs
  intro hop
  unfold hookOp at hop
  split at hop
  · rename_i i
    split at hop
    · rename_i hstage
      split at hop
      · cases hop
        simp [hooks, tally, hstage, Stage.hookRead] at hr
      · cases hop
    · cases hop
    · cases hop
  · cases hop

theorem Succeeded.loses {X : Setting ι} {j : ι} {s : State ι} (hs : Succeeded s) (ho : Orderly X s)
    (hqueue : s.shared.errorQueue = []) (hdoomed : Doomed X j s) :
    s.shared.hookCounter < (s.exported.filter fun i => X.writeHook i = true).card := by
  rcases hdoomed (hs.steady ho hqueue) with ⟨r, hr, -⟩ | hlost
  · rcases hs.stages ho hqueue j with hstage | hstage <;>
      simp [hooks, tally, hstage, Stage.hookRead] at hr
  · have := hlost.1
    rwa [hs.hooks_total ho hqueue] at this

end

variable [Fintype ι] [DecidableEq ι]

/-! ### Whole runs -/

/-- In every run no counter is ahead of what has been added to it. -/
theorem lost_reachable {X : Setting ι} {s : State ι} (hs : (machine X).Reachable s)
    (hsteady : Steady s) : (sindexes X s).Lost 0 ∧ (hooks X s).Lost 0 := by
  apply steady_invariant (I := fun s => (sindexes X s).Lost 0 ∧ (hooks X s).Lost 0) _ _ hs hsteady
  · intro order
    constructor
    · exact ⟨Nat.zero_le _, fun i r hr => by cases hr⟩
    · exact ⟨Nat.zero_le _, fun i r hr => by cases hr⟩
  · intro s e s' _ _ hold hindexes hhooks
    rw [hindexes, hhooks]
    exact ⟨hold.1.apply _, hold.2.apply _⟩

/-- Without races the hook counter is exact. -/
theorem hooks_exact {X : Setting ι} {ok : State ι → Event ι → Prop}
    (hok : ∀ s e, ok s e → ¬Races s e) {s : State ι} (hs : (machine X).ReachedBy ok s)
    (hsteady : Steady s) : (hooks X s).Exact := by
  apply steady_invariant (I := fun s => (hooks X s).Exact) _ _ hs hsteady
  · intro order
    exact ⟨(total_init order rfl).symm, fun i r hr => by cases hr⟩
  · intro s e s' hstep _ hold _ hhooks
    rw [hhooks]
    exact hold.apply (alone_hooks (hok s e hstep))

/-- Updates that do not mix leave nothing out of the index counter. -/
theorem sindexes_exact {X : Setting ι} {ok : State ι → Event ι → Prop}
    (hok : ∀ s e, ok s e → ¬Mixes s e) {s : State ι} (hs : (machine X).ReachedBy ok s)
    (hsteady : Steady s) : (sindexes X s).Exact := by
  apply steady_invariant (I := fun s => (sindexes X s).Exact) _ _ hs hsteady
  · intro order
    exact ⟨(total_init order rfl).symm, fun i r hr => by cases hr⟩
  · intro s e s' hstep _ hold hindexes _
    rw [hindexes]
    exact hold.apply (alone_sindexes (hok s e hstep))

theorem sindexes_zero {X : Setting ι} {ok : State ι → Event ι → Prop}
    (hok : ∀ s e, ok s e → ¬Counts X s e) {s : State ι} (hs : (machine X).ReachedBy ok s)
    (hsteady : Steady s) : (sindexes X s).total = 0 := by
  apply steady_invariant (I := fun s => (sindexes X s).total = 0) _ _ hs hsteady
  · intro order
    exact total_init order rfl
  · intro s e s' hstep _ hold hindexes _
    have hamount := amount_zero (hok s e hstep) hold
    have htotal := (Counter.total_apply (sindexes X s) (sindexOp X s e)).2
    rw [hindexes]
    omega

/-- A race is never made up for. -/
theorem Doomed.step {X : Setting ι} {j : ι} {s s' : State ι} {e : Event ι} (hs : Doomed X j s)
    (hreach : (machine X).Reachable s) (hstep : (machine X).step s e s') : Doomed X j s' := by
  intro hsteady
  have houtcome := step_outcome hstep
  have ho := orderly_reachable hreach
  have hold := steady_of_step houtcome ho.listed hsteady
  rw [(houtcome.counters ho hsteady).2]
  rcases hs hold with hstale | hlost
  · exact hstale.apply (lost_reachable hreach hold).2 (hookOp_ne_load hstale)
      (fun k n => store_pos ho.asked)
  · exact .inr (hlost.apply _)

theorem doomed_of_races {X : Setting ι} {s s' : State ι} {e : Event ι}
    (hreach : (machine X).Reachable s) (hraces : Races s e) (hstep : (machine X).step s e s') :
    ∃ j, Doomed X j s' := by
  obtain ⟨i, j, ri, rj, rfl, hi, hji, hj⟩ := hraces
  refine ⟨j, fun hsteady => .inl ?_⟩
  have houtcome := step_outcome hstep
  have ho := orderly_reachable hreach
  have hold := steady_of_step houtcome ho.listed hsteady
  have hop : hookOp X s (.table i .next) = .store i (X.hooks i) := by simp [hookOp, hi]
  have hread (k : ι) (r : ℕ) (hk : (s.procs k).stage = .hook r) : (hooks X s).reads k = some r :=
    congrArg Stage.hookRead hk
  rw [(houtcome.counters ho hsteady).2, hop]
  exact Counter.stale_of_store (lost_reachable hreach hold).2 (store_pos ho.asked hop) (hread i ri hi)
    (hread j rj hj) hji

theorem Doomed.leads {X : Setting ι} {j : ι} {s s' : State ι} (hs : Doomed X j s)
    (hreach : (machine X).Reachable s) (hleads : (machine X).Leads s s') : Doomed X j s' := by
  induction hleads with
  | refl => exact hs
  | tail hleads hstep ih =>
    obtain ⟨e, he⟩ := hstep
    exact ih.step (hreach.leads hleads) he

/-! ### The statistics -/

/-- A run of such steps adds no index twice, loses no hook and sees every error. -/
structure Clean (X : Setting ι) (s : State ι) (e : Event ι) : Prop where
  counts : ¬Counts X s e
  races : ¬Races s e
  unseen : ¬Unseen s e

/-- The totals are exact in every clean run. After a race they never are again, and without the
overwriting of one update by another the indexes come out twice. -/
theorem totals_exact (X : Setting ι) :
    (∀ s, (machine X).ReachedBy (Clean X) s → Succeeded s → Exact X s) ∧
      (∀ s e s' s'', (machine X).Reachable s → Races s e → (machine X).step s e s' →
        (machine X).Leads s' s'' → Succeeded s'' → s''.shared.errorQueue = [] →
        s''.shared.hookCounter < (s''.exported.filter fun i => X.writeHook i = true).card) ∧
      ∀ s, (machine X).ReachedBy (fun s e => ¬Mixes s e ∧ ¬Unseen s e) s → Succeeded s →
        s.shared.sindexCounter = 2 * ∑ i ∈ s.exported, X.indexes i := by
  constructor
  · intro s hs hsucceeded
    have hreach : (machine X).Reachable s := hs.mono (fun _ _ _ => trivial)
    have ho := orderly_reachable hreach
    have hqueue := queue_of_finished (fun _ _ h => h.unseen) hs hsucceeded.1
    have hsteady := hsucceeded.steady ho hqueue
    have hzero := sindexes_zero (fun _ _ h => h.counts) hs hsteady
    have hlost := (lost_reachable hreach hsteady).1.1
    have hindexes := hsucceeded.sindexes_total ho hqueue
    constructor
    · exact hsucceeded.rows ho hqueue
    · change (sindexes X s).value = _
      omega
    · exact (hooks_exact (fun _ _ h => h.races) hs hsteady).1.trans
        (hsucceeded.hooks_total ho hqueue)
  · constructor
    · intro s e s' s'' hreach hraces hstep hleads hsucceeded hqueue
      obtain ⟨j, hdoomed⟩ := doomed_of_races hreach hraces hstep
      have hreach' : (machine X).Reachable s' := .step hreach trivial hstep
      exact hsucceeded.loses (orderly_reachable (hreach'.leads hleads)) hqueue
        (hdoomed.leads hreach' hleads)
    · intro s hs hsucceeded
      have ho := orderly_reachable (hs.mono (fun _ _ _ => trivial))
      have hqueue := queue_of_finished (fun _ _ h => h.2) hs hsucceeded.1
      have hsteady := hsucceeded.steady ho hqueue
      exact (sindexes_exact (fun _ _ h => h.1) hs hsteady).1.trans
        (hsucceeded.sindexes_total ho hqueue)

/-- Tables with so many indexes and a write hook each. -/
def alike (ι : Type) (indexes : ℕ) : Setting ι := ⟨fun _ => indexes, fun _ => true, true, 2, by simp⟩

/-- A run for two tables without indexes, up to where both processes have read the counter of the
hooks or an error is queued. -/
def cautious (s : State Bool) : List (Event Bool) → Option (State Bool)
  | [] => some s
  | e :: l =>
    match s.shared.errorQueue, (s.procs false).stage, (s.procs true).stage with
    | _ :: _, _, _ => none
    | [], .hook _, .hook _ => none
    | [], _, _ => (step (alike Bool 0) s e).bind fun s' => cautious s' l

theorem reachedBy_cautious {s s' : State Bool} {l : List (Event Bool)}
    (h : (machine (alike Bool 0)).ReachedBy (Clean (alike Bool 0)) s)
    (hrun : cautious s l = some s') :
    (machine (alike Bool 0)).ReachedBy (Clean (alike Bool 0)) s' := by
  induction l generalizing s with
  | nil =>
    cases hrun
    exact h
  | cons e l ih =>
    unfold cautious at hrun
    split at hrun
    · cases hrun
    · cases hrun
    · rename_i hqueue hrace
      obtain ⟨s₁, hstep, hrest⟩ := Option.bind_eq_some_iff.mp hrun
      refine ih (.step h ⟨?_, ?_, ?_⟩ hstep) hrest
      · rintro ⟨i, r, -, -, hne⟩
        exact hne rfl
      · rintro ⟨i, j, ri, rj, -, hi, hji, hj⟩
        cases i <;> cases j
        · exact hji rfl
        · exact hrace ri rj hi hj
        · exact hrace rj ri hj hi
        · exact hji rfl
      · intro hunseen
        exact hunseen.2.2.2.2 hqueue

/-- Two tables with a write hook each, both processes at work at once, the one on its row while the
other counts its hook. -/
theorem totals_exact_two :
    ∃ s, (machine (alike Bool 0)).ReachedBy (Clean (alike Bool 0)) s ∧ Succeeded s ∧
      s.shared.hookCounter = 2 ∧ (s.procs false).progress = 1 ∧ Exact (alike Bool 0) s := by
  have h : (machine (alike Bool 0)).ReachedBy (Clean (alike Bool 0)) (init [false, true]) :=
    .init ⟨[false, true], by simp, by simp, rfl⟩
  have h := reachedBy_cautious (l := [.parent, .parent, .parent, .parent, .parent, .parent, .parent,
    .parent, .parent, .table false .next, .table true .next, .table false .next, .table true .next,
    .table false .next, .table false .next, .table false .next, .table true .next,
    .table true .next, .table false .next, .table false .row, .table true .next, .table true .next,
    .table false .done, .table false .exit, .table true .done, .table true .exit, .parent, .parent,
    .parent, .parent, .parent, .parent, .parent]) h rfl
  exact ⟨_, h, ⟨rfl, rfl, rfl⟩, rfl, rfl, (totals_exact (alike Bool 0)).1 _ h ⟨rfl, rfl, rfl⟩⟩

/-- One table with one index reports two. Two tables with a write hook each, whose processes have
both read the counter before either writes it back, report one. -/
theorem totals_inexact :
    (∃ s, (machine (alike Unit 1)).Reachable s ∧ Succeeded s ∧ s.shared.errorQueue = [] ∧
      s.shared.sindexCounter = 2 ∧ ¬Exact (alike Unit 1) s) ∧
      ∃ s, (machine (alike Bool 0)).Reachable s ∧ Succeeded s ∧ s.shared.errorQueue = [] ∧
        s.shared.hookCounter = 1 ∧ ¬Exact (alike Bool 0) s := by
  constructor
  · have h : (machine (alike Unit 1)).Reachable (init [()]) := .init ⟨[()], by simp, by simp, rfl⟩
    have h := reachable_run (l := [.parent, .parent, .parent, .parent, .table () .next,
      .table () .next, .table () .next, .table () .next, .table () .next, .table () .next,
      .table () .row, .table () .done, .table () .exit, .parent, .parent, .parent, .parent, .parent,
      .parent]) h rfl
    refine ⟨_, h, ⟨rfl, rfl, rfl⟩, rfl, rfl, fun hexact => ?_⟩
    exact absurd hexact.sindexes (by decide)
  · have h : (machine (alike Bool 0)).Reachable (init [false, true]) :=
      .init ⟨[false, true], by simp, by simp, rfl⟩
    have h := reachable_run (l := [.parent, .parent, .parent, .parent, .parent, .parent, .parent,
      .parent, .parent, .table false .next, .table false .next, .table false .next,
      .table false .next, .table true .next, .table true .next, .table true .next,
      .table true .next, .table false .next, .table true .next, .table false .next,
      .table false .done, .table false .exit, .table true .next, .table true .done,
      .table true .exit, .parent, .parent, .parent, .parent, .parent, .parent, .parent]) h rfl
    refine ⟨_, h, ⟨rfl, rfl, rfl⟩, rfl, rfl, fun hexact => ?_⟩
    exact absurd hexact.hooks (by decide)

end RethinkDB.Export.Statistics
