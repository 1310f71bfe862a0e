import Mathlib.Data.List.Nodup
import RethinkDB.Async.Pool

/-! The tasks around a `TrioConnectionPool`: which task holds which connection, through every
interleaving of their acquires and releases at their awaits. -/
namespace RethinkDB.Async.PoolTasks
open RethinkDB.Lib Pool

/-- `held` pairs a task with a connection that it has acquired and not released. The tasks
`connecting` are inside `make_connection`, those `closing` inside the `conn.close` of a release. -/
structure World where
  pool : State
  held : List (ℕ × ℕ)
  connecting : List ℕ
  closing : List (ℕ × ℕ)
  deriving Repr, DecidableEq

def init (maxIdle : ℕ) : World := ⟨Pool.init maxIdle, [], [], []⟩

def World.Suspended (w : World) (task : ℕ) : Prop :=
  task ∈ w.connecting ∨ task ∈ w.closing.map Prod.fst

instance (w : World) (task : ℕ) : Decidable (w.Suspended task) :=
  inferInstanceAs (Decidable (_ ∨ _))

/-- What a task does until its next await, or what happens to the pool otherwise. -/
inductive Act where
  | acquire (task : ℕ)
  | connected (task : ℕ)
  | refused (task : ℕ)
  | release (task conn : ℕ)
  | closed (task conn : ℕ)
  | closeRaised (task conn : ℕ)
  | other (e : Event)
  deriving Repr, DecidableEq

def ofTask : Event → Bool
  | .acquire | .connected | .refused | .release _ => true
  | _ => false

/-- An acquire of a closed pool raises, and so does the release of what is not lent out. -/
def step (w : World) : Act → Option World
  | .acquire task =>
    if w.Suspended task then none
    else if w.pool.closed then some w
    else match popOpen w.pool w.pool.connections with
      | some (conn, _) =>
        some { w with pool := Pool.acquire w.pool, held := (task, conn) :: w.held }
      | none => some { w with pool := Pool.acquire w.pool, connecting := task :: w.connecting }
  | .connected task =>
    if task ∈ w.connecting then
      some { w with
        pool := Pool.connected w.pool, held := (task, w.pool.opened.length) :: w.held
        connecting := w.connecting.erase task }
    else none
  | .refused task =>
    if task ∈ w.connecting then
      some { w with
        pool := { w.pool with connecting := w.pool.connecting - 1 }
        connecting := w.connecting.erase task }
    else none
  | .release task conn =>
    if w.Suspended task then none
    else if conn ∈ w.pool.lentOut then
      some { w with
        pool := Pool.release conn w.pool, held := w.held.erase (task, conn)
        closing := if w.pool.connections.length < w.pool.maxIdle then w.closing
          else (task, conn) :: w.closing }
    else some w
  | .closed task conn | .closeRaised task conn =>
    if (task, conn) ∈ w.closing then some { w with closing := w.closing.erase (task, conn) }
    else none
  | .other e =>
    if ofTask e then none else (Pool.step w.pool e).map fun pool => { w with pool := pool }

def machine (maxIdle : ℕ) : Machine World Act where
  init w := w = init maxIdle
  step w a w' := step w a = some w'

/-- A task releases what it holds, or what is not lent out. -/
def Own (w : World) (a : Act) : Prop :=
  ∀ task conn, a = .release task conn → (task, conn) ∈ w.held ∨ conn ∉ w.pool.lentOut

/-! ### The two collections -/

/-- The idle deque and the lent-out set. -/
structure Tidy (s : State) : Prop where
  idle : s.connections.Nodup
  lent : s.lentOut.Nodup
  apart : ∀ conn ∈ s.connections, conn ∉ s.lentOut
  bound : s.connections.length ≤ s.maxIdle
  made : Made s

theorem popOpen_suffix {s : State} {l rest : List ℕ} {conn : ℕ}
    (h : popOpen s l = some (conn, rest)) : conn :: rest <:+ l ∧ s.IsOpen conn := by
  induction l with
  | nil => cases h
  | cons c l ih =>
    rw [popOpen] at h
    split at h
    · rename_i hopen
      cases h
      exact ⟨List.suffix_refl _, hopen⟩
    · obtain ⟨hsuffix, hopen⟩ := ih h
      exact ⟨hsuffix.trans (List.suffix_cons c l), hopen⟩

theorem acquire_closed {s : State} (hclosed : s.closed = true) : Pool.acquire s = s := if_pos hclosed

theorem acquire_popped {s : State} {conn : ℕ} {rest : List ℕ} (hclosed : ¬s.closed = true)
    (hpop : popOpen s s.connections = some (conn, rest)) :
    Pool.acquire s = { s with connections := rest, lentOut := s.lentOut.insert conn } := by
  rw [Pool.acquire, if_neg hclosed, hpop]

theorem acquire_empty {s : State} (hclosed : ¬s.closed = true)
    (hpop : popOpen s s.connections = none) :
    Pool.acquire s = { s with connections := [], connecting := s.connecting + 1 } := by
  rw [Pool.acquire, if_neg hclosed, hpop]

theorem release_kept {s : State} {conn : ℕ} (hconn : conn ∈ s.lentOut)
    (hroom : s.connections.length < s.maxIdle) :
    Pool.release conn s =
      { s with lentOut := s.lentOut.erase conn, connections := s.connections ++ [conn] } := by
  rw [Pool.release, if_pos hconn]
  exact if_pos hroom

theorem release_full {s : State} {conn : ℕ} (hconn : conn ∈ s.lentOut)
    (hfull : ¬s.connections.length < s.maxIdle) :
    Pool.release conn s = State.shut conn { s with lentOut := s.lentOut.erase conn } := by
  rw [Pool.release, if_pos hconn]
  exact if_neg hfull

theorem release_stray {s : State} {conn : ℕ} (hconn : conn ∉ s.lentOut) :
    Pool.release conn s = s := if_neg hconn

theorem Tidy.acquire {s : State} (hs : Tidy s) : Tidy (Pool.acquire s) := by
  by_cases hclosed : s.closed = true
  · rwa [acquire_closed hclosed]
  have hmade := hs.made.acquire
  cases hpop : popOpen s s.connections with
  | none =>
    rw [acquire_empty hclosed hpop] at hmade ⊢
    exact ⟨List.nodup_nil, hs.lent, by simp, Nat.zero_le _, hmade⟩
  | some popped =>
    obtain ⟨conn, rest⟩ := popped
    rw [acquire_popped hclosed hpop] at hmade ⊢
    have hsuffix := (popOpen_suffix hpop).1
    have hnodup : (conn :: rest).Nodup := hs.idle.sublist hsuffix.sublist
    have hlength : (conn :: rest).length ≤ s.connections.length := hsuffix.length_le
    rw [List.nodup_cons] at hnodup
    rw [List.length_cons] at hlength
    constructor
    · exact hnodup.2
    · exact hs.lent.insert
    · intro c hc hlent
      rcases List.mem_insert_iff.mp hlent with rfl | hlent
      · exact hnodup.1 hc
      · exact hs.apart c (hsuffix.subset (List.mem_cons_of_mem _ hc)) hlent
    · have := hs.bound
      dsimp only
      omega
    · exact hmade

theorem Tidy.connected {s : State} (hs : Tidy s) : Tidy (Pool.connected s) := by
  have hmade := hs.made.connected
  constructor
  · exact hs.idle
  · exact hs.lent.insert
  · intro c hc hlent
    rcases List.mem_insert_iff.mp hlent with rfl | hlent
    · exact absurd (hs.made.1 _ hc) (Nat.lt_irrefl _)
    · exact hs.apart c hc hlent
  · exact hs.bound
  · exact hmade

theorem Tidy.release {s : State} (hs : Tidy s) (conn : ℕ) : Tidy (Pool.release conn s) := by
  have hmade := hs.made.release conn
  by_cases hconn : conn ∈ s.lentOut
  · have hapart (c : ℕ) (hc : c ∈ s.connections) : c ∉ s.lentOut.erase conn := by
      intro hlent
      exact hs.apart c hc (List.mem_of_mem_erase hlent)
    by_cases hroom : s.connections.length < s.maxIdle
    · rw [release_kept hconn hroom] at hmade ⊢
      have hnew (c : ℕ) (hc : c ∈ s.connections) : c ≠ conn := by
        intro heq
        exact hs.apart c hc (heq ▸ hconn)
      constructor
      · rw [List.nodup_append]
        simpa using ⟨hs.idle, hnew⟩
      · exact hs.lent.erase conn
      · intro c hc
        rcases List.mem_append.mp hc with hc | hc
        · exact hapart c hc
        · rw [List.mem_singleton.mp hc]
          exact hs.lent.not_mem_erase
      · rw [List.length_append, List.length_singleton]
        exact hroom
      · exact hmade
    · rw [release_full hconn hroom] at hmade ⊢
      exact ⟨hs.idle, hs.lent.erase conn, hapart, hs.bound, hmade⟩
  · rwa [release_stray hconn]

/-- What is not a task's step leaves both collections as they are, and opens nothing. -/
structure Aside (s s' : State) : Prop where
  maxIdle : s'.maxIdle = s.maxIdle
  connections : s'.connections = s.connections
  lentOut : s'.lentOut = s.lentOut
  connecting : s'.connecting = s.connecting
  length : s'.opened.length = s.opened.length
  opens : ∀ conn, s'.IsOpen conn → s.IsOpen conn

theorem aside_shut (s : State) (conn : ℕ) : Aside s (s.shut conn) :=
  ⟨rfl, rfl, rfl, rfl, List.length_set, fun _ hopen => (isOpen_shut.mp hopen).2⟩

theorem aside_step {s s' : State} {e : Event} (he : ofTask e = false)
    (hstep : Pool.step s e = some s') : Aside s s' := by
  have hphase (closed : Bool) (closing : Closing) :
      Aside s { s with closed := closed, closing := closing } :=
    ⟨rfl, rfl, rfl, rfl, rfl, fun _ => id⟩
  cases e with
  | acquire => cases he
  | connected => cases he
  | refused => cases he
  | release conn => cases he
  | lost conn =>
    cases hstep
    exact aside_shut s conn
  | close =>
    simp only [Pool.step] at hstep
    split at hstep
    · cases hstep
      exact hphase _ _
    · cases hstep
  | closeBegun conn =>
    simp only [Pool.step] at hstep
    split at hstep
    · split at hstep
      · cases hstep
        obtain ⟨hmax, hidle, hlent, hconnecting, hlength, hopens⟩ := aside_shut s conn
        exact ⟨hmax, hidle, hlent, hconnecting, hlength, hopens⟩
      · cases hstep
    · cases hstep
  | closeEnded conn =>
    simp only [Pool.step] at hstep
    split at hstep
    · split at hstep
      · cases hstep
        exact hphase _ _
      · cases hstep
    · cases hstep
  | closeRaised =>
    simp only [Pool.step] at hstep
    split at hstep
    · cases hstep
      exact hphase _ _
    · cases hstep
  | closeReturned =>
    simp only [Pool.step] at hstep
    split at hstep
    · cases hstep
      exact hphase _ _
    · cases hstep

theorem Tidy.aside {s s' : State} (hs : Tidy s) (h : Aside s s') (hmade : Made s') : Tidy s' := by
  obtain ⟨hmax, hidle, hlent, -, -, -⟩ := h
  constructor
  · rw [hidle]
    exact hs.idle
  · rw [hlent]
    exact hs.lent
  · rw [hidle, hlent]
    exact hs.apart
  · rw [hidle, hmax]
    exact hs.bound
  · exact hmade

theorem Tidy.step {s s' : State} {e : Event} (hs : Tidy s) (hstep : Pool.step s e = some s') :
    Tidy s' := by
  have hmade := hs.made.step hstep
  cases e with
  | acquire =>
    cases hstep
    exact hs.acquire
  | connected =>
    simp only [Pool.step] at hstep
    split at hstep
    · cases hstep
      exact hs.connected
    · cases hstep
  | refused =>
    simp only [Pool.step] at hstep
    split at hstep
    · cases hstep
      exact ⟨hs.idle, hs.lent, hs.apart, hs.bound, hmade⟩
    · cases hstep
  | release conn =>
    cases hstep
    exact hs.release conn
  | lost conn => exact hs.aside (aside_step rfl hstep) hmade
  | close => exact hs.aside (aside_step rfl hstep) hmade
  | closeBegun conn => exact hs.aside (aside_step rfl hstep) hmade
  | closeEnded conn => exact hs.aside (aside_step rfl hstep) hmade
  | closeRaised => exact hs.aside (aside_step rfl hstep) hmade
  | closeReturned => exact hs.aside (aside_step rfl hstep) hmade

theorem maxIdle_step {s s' : State} {e : Event} (hstep : Pool.step s e = some s') :
    s'.maxIdle = s.maxIdle := by
  cases e with
  | acquire =>
    cases hstep
    unfold Pool.acquire
    split
    · rfl
    · split <;> rfl
  | connected =>
    simp only [Pool.step] at hstep
    split at hstep
    · cases hstep
      rfl
    · cases hstep
  | refused =>
    simp only [Pool.step] at hstep
    split at hstep
    · cases hstep
      rfl
    · cases hstep
  | release conn =>
    cases hstep
    unfold Pool.release
    split
    · dsimp only
      split <;> rfl
    · rfl
  | lost conn => exact (aside_step rfl hstep).maxIdle
  | close => exact (aside_step rfl hstep).maxIdle
  | closeBegun conn => exact (aside_step rfl hstep).maxIdle
  | closeEnded conn => exact (aside_step rfl hstep).maxIdle
  | closeRaised => exact (aside_step rfl hstep).maxIdle
  | closeReturned => exact (aside_step rfl hstep).maxIdle

theorem tidy_reachable {maxIdle : ℕ} {s : State} (hs : (Pool.machine maxIdle).Reachable s) :
    Tidy s ∧ s.maxIdle = maxIdle := by
  apply Machine.ReachedBy.invariant (I := fun s => Tidy s ∧ s.maxIdle = maxIdle) _ _ hs
  · intro s hinit
    cases hinit
    exact ⟨⟨List.nodup_nil, List.nodup_nil, by simp [Pool.init], Nat.zero_le _, made_init maxIdle⟩,
      rfl⟩
  · intro s e s' _ hs _ hstep
    exact ⟨hs.1.step hstep, (maxIdle_step hstep).trans hs.2⟩

/-! ### Every run of the tasks is a run of the pool -/

inductive Outcome (w : World) : Act → World → Prop
  | barred (task : ℕ) : w.pool.closed = true → Outcome w (.acquire task) w
  | popped (task conn : ℕ) (rest : List ℕ) : ¬w.pool.closed = true →
    popOpen w.pool w.pool.connections = some (conn, rest) →
    Outcome w (.acquire task)
      { w with pool := Pool.acquire w.pool, held := (task, conn) :: w.held }
  | awaits (task : ℕ) : ¬w.pool.closed = true → popOpen w.pool w.pool.connections = none →
    Outcome w (.acquire task)
      { w with pool := Pool.acquire w.pool, connecting := task :: w.connecting }
  | connected (task : ℕ) : task ∈ w.connecting →
    Outcome w (.connected task)
      { w with
        pool := Pool.connected w.pool, held := (task, w.pool.opened.length) :: w.held
        connecting := w.connecting.erase task }
  | refused (task : ℕ) : task ∈ w.connecting →
    Outcome w (.refused task)
      { w with
        pool := { w.pool with connecting := w.pool.connecting - 1 }
        connecting := w.connecting.erase task }
  | kept (task conn : ℕ) : conn ∈ w.pool.lentOut →
    w.pool.connections.length < w.pool.maxIdle →
    Outcome w (.release task conn)
      { w with pool := Pool.release conn w.pool, held := w.held.erase (task, conn) }
  | full (task conn : ℕ) : conn ∈ w.pool.lentOut →
    ¬w.pool.connections.length < w.pool.maxIdle →
    Outcome w (.release task conn)
      { w with
        pool := Pool.release conn w.pool, held := w.held.erase (task, conn)
        closing := (task, conn) :: w.closing }
  | stray (task conn : ℕ) : conn ∉ w.pool.lentOut → Outcome w (.release task conn) w
  | ended (a : Act) (task conn : ℕ) : a = .closed task conn ∨ a = .closeRaised task conn →
    Outcome w a { w with closing := w.closing.erase (task, conn) }
  | aside (e : Event) (pool : State) : Pool.step w.pool e = some pool → Aside w.pool pool →
    Outcome w (.other e) { w with pool := pool }

theorem step_outcome {w w' : World} {a : Act} (hstep : step w a = some w') : Outcome w a w' := by
  cases a with
  | acquire task =>
    simp only [step] at hstep
    split at hstep
    · cases hstep
    · split at hstep
      · rename_i hclosed
        cases hstep
        exact .barred task hclosed
      · rename_i hclosed
        split at hstep
        · rename_i hpop
          cases hstep
          exact .popped task _ _ hclosed hpop
        · rename_i hpop
          cases hstep
          exact .awaits task hclosed hpop
  | connected task =>
    simp only [step] at hstep
    split at hstep
    · rename_i htask
      cases hstep
      exact .connected task htask
    · cases hstep
  | refused task =>
    simp only [step] at hstep
    split at hstep
    · rename_i htask
      cases hstep
      exact .refused task htask
    · cases hstep
  | release task conn =>
    simp only [step] at hstep
    split at hstep
    · cases hstep
    · split at hstep
      · rename_i hconn
        cases hstep
        by_cases hroom : w.pool.connections.length < w.pool.maxIdle
        · rw [if_pos hroom]
          exact .kept task conn hconn hroom
        · rw [if_neg hroom]
          exact .full task conn hconn hroom
      · rename_i hconn
        cases hstep
        exact .stray task conn hconn
  | closed task conn =>
    simp only [step] at hstep
    split at hstep
    · cases hstep
      exact .ended _ task conn (.inl rfl)
    · cases hstep
  | closeRaised task conn =>
    simp only [step] at hstep
    split at hstep
    · cases hstep
      exact .ended _ task conn (.inr rfl)
    · cases hstep
  | other e =>
    simp only [step] at hstep
    split at hstep
    · cases hstep
    · rename_i hother
      rw [Bool.not_eq_true] at hother
      obtain ⟨pool, hpool, hw'⟩ := Option.map_eq_some_iff.mp hstep
      cases hw'
      exact .aside e pool hpool (aside_step hother hpool)

/-- The tasks inside `make_connection` are those that the pool counts. -/
def Counted (w : World) : Prop := w.pool.connecting = w.connecting.length

theorem Counted.connecting {w : World} {task : ℕ} (hw : Counted w) (htask : task ∈ w.connecting) :
    0 < w.pool.connecting := hw ▸ List.length_pos_of_mem htask

/-- A step of a task is one of the pool, or leaves it as it is. -/
theorem Outcome.pool {w w' : World} {a : Act} (h : Outcome w a w') (hw : Counted w) :
    w'.pool = w.pool ∨ ∃ e, Pool.step w.pool e = some w'.pool := by
  cases h with
  | barred | stray | ended => exact .inl rfl
  | popped | awaits => exact .inr ⟨.acquire, rfl⟩
  | connected task htask => exact .inr ⟨.connected, if_pos (hw.connecting htask)⟩
  | refused task htask => exact .inr ⟨.refused, if_pos (hw.connecting htask)⟩
  | kept task conn | full task conn => exact .inr ⟨.release conn, rfl⟩
  | aside e pool hpool => exact .inr ⟨e, hpool⟩

theorem connecting_release (s : State) (conn : ℕ) :
    (Pool.release conn s).connecting = s.connecting := by
  unfold Pool.release
  split
  · dsimp only
    split <;> rfl
  · rfl

theorem Counted.step {w w' : World} {a : Act} (hw : Counted w) (h : Outcome w a w') :
    Counted w' := by
  have herase (task : ℕ) (htask : task ∈ w.connecting) :
      w.pool.connecting - 1 = (w.connecting.erase task).length := by
    rw [List.length_erase_of_mem htask, hw]
  cases h with
  | barred | stray | ended => exact hw
  | popped task conn rest hclosed hpop =>
    rw [Counted, acquire_popped hclosed hpop]
    exact hw
  | awaits task hclosed hpop =>
    rw [Counted, acquire_empty hclosed hpop]
    exact congrArg (· + 1) hw
  | connected task htask | refused task htask => exact herase task htask
  | kept task conn | full task conn => exact (connecting_release w.pool conn).trans hw
  | aside e pool hpool haside => exact haside.connecting.trans hw

theorem pool_reachable {maxIdle : ℕ} {w : World} (hw : (machine maxIdle).Reachable w) :
    Counted w ∧ (Pool.machine maxIdle).Reachable w.pool := by
  apply Machine.ReachedBy.invariant
    (I := fun w => Counted w ∧ (Pool.machine maxIdle).Reachable w.pool) _ _ hw
  · intro w hinit
    cases hinit
    exact ⟨rfl, .init rfl⟩
  · intro w a w' _ hw _ hstep
    have houtcome := step_outcome hstep
    constructor
    · exact hw.1.step houtcome
    · rcases houtcome.pool hw.1 with hpool | ⟨e, hpool⟩
      · rw [hpool]
        exact hw.2
      · exact .step hw.2 trivial hpool

/-! ### Who holds a connection -/

/-- The connections held are those lent out, each held once. -/
def Custody (w : World) : Prop := (w.held.map Prod.snd).Perm w.pool.lentOut

theorem Custody.erase {w : World} {task conn : ℕ} (hw : Custody w) (hheld : (task, conn) ∈ w.held) :
    ((w.held.erase (task, conn)).map Prod.snd).Perm (w.pool.lentOut.erase conn) := by
  have hcons : (w.held.map Prod.snd).Perm
      (conn :: (w.held.erase (task, conn)).map Prod.snd) :=
    (List.perm_cons_erase hheld).map Prod.snd
  have herase := (hcons.symm.trans hw).erase conn
  rwa [List.erase_cons_head] at herase

theorem Custody.step {w w' : World} {a : Act} (hw : Custody w) (hpool : Tidy w.pool)
    (hown : Own w a) (h : Outcome w a w') : Custody w' := by
  cases h with
  | barred | stray | ended => exact hw
  | refused => exact hw
  | popped task conn rest hclosed hpop =>
    have hconn : conn ∉ w.pool.lentOut :=
      hpool.apart conn ((popOpen_suffix hpop).1.subset List.mem_cons_self)
    rw [Custody, acquire_popped hclosed hpop]
    dsimp only
    rw [List.insert_of_not_mem hconn]
    exact hw.cons conn
  | awaits task hclosed hpop =>
    rw [Custody, acquire_empty hclosed hpop]
    exact hw
  | connected task htask =>
    have hnew : w.pool.opened.length ∉ w.pool.lentOut := by
      intro hlent
      exact Nat.lt_irrefl _ (hpool.made.2.1 _ hlent)
    rw [Custody, Pool.connected]
    dsimp only
    rw [List.insert_of_not_mem hnew]
    exact hw.cons _
  | kept task conn hconn hroom =>
    rw [Custody, release_kept hconn hroom]
    exact hw.erase ((hown task conn rfl).resolve_right (absurd hconn))
  | full task conn hconn hfull =>
    rw [Custody, release_full hconn hfull]
    exact hw.erase ((hown task conn rfl).resolve_right (absurd hconn))
  | aside e pool _ haside =>
    rw [Custody, haside.lentOut]
    exact hw

theorem custody_reached {maxIdle : ℕ} {w : World} (hw : (machine maxIdle).ReachedBy Own w) :
    Custody w := by
  apply Machine.ReachedBy.invariant (I := Custody) _ _ hw
  · intro w hinit
    cases hinit
    exact .refl _
  · intro w a w' hreached hw hown hstep
    have hreach : (machine maxIdle).Reachable w := hreached.mono (fun _ _ _ => trivial)
    exact hw.step (tidy_reachable (pool_reachable hreach).2).1 hown (step_outcome hstep)

/-! ### What a release gives up -/

/-- The connection has been made, and is out of the pool for good. -/
def Out (conn : ℕ) (s : State) : Prop :=
  conn < s.opened.length ∧ conn ∉ s.connections ∧ conn ∉ s.lentOut ∧ ¬s.IsOpen conn

theorem Out.acquire {s : State} {conn : ℕ} (hs : Out conn s) : Out conn (Pool.acquire s) := by
  by_cases hclosed : s.closed = true
  · rwa [acquire_closed hclosed]
  obtain ⟨hmade, hidle, hlent, hopen⟩ := hs
  cases hpop : popOpen s s.connections with
  | none =>
    rw [acquire_empty hclosed hpop]
    exact ⟨hmade, List.not_mem_nil, hlent, hopen⟩
  | some popped =>
    obtain ⟨c, rest⟩ := popped
    rw [acquire_popped hclosed hpop]
    have hsubset := (popOpen_suffix hpop).1.subset
    have hrest : conn ∉ rest := fun hc => hidle (hsubset (List.mem_cons_of_mem _ hc))
    have hne : conn ≠ c := fun hc => hidle (hc ▸ hsubset List.mem_cons_self)
    exact ⟨hmade, hrest, by simp [hne, hlent], hopen⟩

theorem Out.connected {s : State} {conn : ℕ} (hs : Out conn s) : Out conn (Pool.connected s) := by
  obtain ⟨hmade, hidle, hlent, hopen⟩ := hs
  have hlength : (Pool.connected s).opened.length = s.opened.length + 1 := List.length_append
  have hne : conn ≠ s.opened.length := by omega
  constructor
  · omega
  · constructor
    · exact hidle
    · constructor
      · simp [Pool.connected, hne, hlent]
      · intro h
        exact (isOpen_connected h).elim hopen hne

theorem Out.release {s : State} {conn : ℕ} (hs : Out conn s) (c : ℕ) :
    Out conn (Pool.release c s) := by
  obtain ⟨hmade, hidle, hlent, hopen⟩ := hs
  by_cases hc : c ∈ s.lentOut
  · have hne : conn ≠ c := fun heq => hlent (heq ▸ hc)
    have herase : conn ∉ s.lentOut.erase c := fun h => hlent (List.mem_of_mem_erase h)
    by_cases hroom : s.connections.length < s.maxIdle
    · rw [release_kept hc hroom]
      exact ⟨hmade, by simp [hidle, hne], herase, hopen⟩
    · rw [release_full hc hroom]
      have hlength : (s.opened.set c false).length = s.opened.length := List.length_set
      exact ⟨hlength ▸ hmade, hidle, herase, fun h => hopen (isOpen_shut.mp h).2⟩
  · rw [release_stray hc]
    exact ⟨hmade, hidle, hlent, hopen⟩

theorem Out.aside {s s' : State} {conn : ℕ} (hs : Out conn s) (h : Aside s s') : Out conn s' := by
  obtain ⟨hmade, hidle, hlent, hopen⟩ := hs
  exact ⟨h.length ▸ hmade, h.connections ▸ hidle, h.lentOut ▸ hlent,
    fun hc => hopen (h.opens conn hc)⟩

/-- The release that closes a connection has taken it out of the pool. -/
theorem out_release {s : State} {conn : ℕ} (hs : Tidy s) (hconn : conn ∈ s.lentOut)
    (hfull : ¬s.connections.length < s.maxIdle) : Out conn (Pool.release conn s) := by
  rw [release_full hconn hfull]
  constructor
  · have hlength : (s.opened.set conn false).length = s.opened.length := List.length_set
    exact hlength ▸ hs.made.2.1 conn hconn
  · constructor
    · intro hidle
      exact hs.apart conn hidle hconn
    · constructor
      · exact hs.lent.not_mem_erase
      · intro hopen
        exact (isOpen_shut.mp hopen).1 rfl

theorem Out.outcome {w w' : World} {a : Act} {conn : ℕ} (hw : Out conn w.pool)
    (h : Outcome w a w') : Out conn w'.pool := by
  cases h with
  | barred | stray | refused | ended => exact hw
  | popped | awaits => exact hw.acquire
  | connected => exact hw.connected
  | kept task c | full task c => exact hw.release c
  | aside e pool _ haside => exact hw.aside haside

theorem Out.leads {maxIdle : ℕ} {w w' : World} {conn : ℕ} (hw : Out conn w.pool)
    (h : (machine maxIdle).Leads w w') : Out conn w'.pool := by
  induction h with
  | refl => exact hw
  | tail _ hstep ih =>
    obtain ⟨a, hstep⟩ := hstep
    exact ih.outcome (step_outcome hstep)

/-- Each connection that a release is closing. -/
def Given (w : World) : Prop := ∀ p ∈ w.closing, Out p.2 w.pool

theorem Given.step {w w' : World} {a : Act} (hw : Given w) (hpool : Tidy w.pool)
    (h : Outcome w a w') : Given w' := by
  intro p hp
  by_cases hbefore : p ∈ w.closing
  · exact (hw p hbefore).outcome h
  · cases h with
    | full task conn hconn hfull =>
      rcases List.mem_cons.mp hp with rfl | hp
      · exact out_release hpool hconn hfull
      · exact absurd hp hbefore
    | ended => exact absurd (List.mem_of_mem_erase hp) hbefore
    | _ => exact absurd hp hbefore

theorem given_reached {maxIdle : ℕ} {w : World} (hw : (machine maxIdle).Reachable w) :
    Given w := by
  apply Machine.ReachedBy.invariant (I := Given) _ _ hw
  · intro w hinit
    cases hinit
    intro p hp
    cases hp
  · intro w a w' hreach hw _ hstep
    exact hw.step (tidy_reachable (pool_reachable hreach).2).1 (step_outcome hstep)

/-- What an acquire hands over is open. -/
theorem Outcome.opens {w w' : World} {a : Act} {p : ℕ × ℕ} (h : Outcome w a w')
    (hheld : w'.held = p :: w.held) : w'.pool.IsOpen p.2 := by
  have hlength := congrArg List.length hheld
  rw [List.length_cons] at hlength
  have herase (q : ℕ × ℕ) : (w.held.erase q).length ≤ w.held.length :=
    List.erase_sublist.length_le
  cases h with
  | barred | stray | ended | awaits | refused | aside => simp at hlength
  | popped task conn rest hclosed hpop =>
    cases hheld
    have hopen := (popOpen_suffix hpop).2
    rwa [State.IsOpen, ← (acquire_keeps w.pool).1] at hopen
  | connected task htask =>
    cases hheld
    simp [State.IsOpen, Pool.connected]
  | kept task conn | full task conn =>
    have := herase (task, conn)
    dsimp only at hlength
    omega

/-- Tasks that release only what they hold, or what is not lent out, never share a connection. In
every run the two collections are in order, an acquire hands over an open connection, a stray
release changes nothing, and one that closes its connection, whether that raises or not, has given it
up for good. -/
theorem held_by_one (maxIdle : ℕ) :
    (∀ w, (machine maxIdle).ReachedBy Own w → (w.held.map Prod.snd).Nodup) ∧
      ∀ w, (machine maxIdle).Reachable w →
        w.pool.connections.Nodup ∧ (∀ conn ∈ w.pool.connections, conn ∉ w.pool.lentOut) ∧
          w.pool.connections.length ≤ maxIdle ∧
          (∀ p ∈ w.closing, ∀ w', (machine maxIdle).Leads w w' → Out p.2 w'.pool) ∧
          ∀ a w', (machine maxIdle).step w a w' →
            (∀ p, w'.held = p :: w.held → w'.pool.IsOpen p.2) ∧
              ∀ task conn, a = .release task conn → conn ∉ w.pool.lentOut → w' = w := by
  constructor
  · intro w hw
    have hreach : (machine maxIdle).Reachable w := hw.mono (fun _ _ _ => trivial)
    have htidy := (tidy_reachable (pool_reachable hreach).2).1
    exact (custody_reached hw).nodup_iff.mpr htidy.lent
  · intro w hw
    obtain ⟨htidy, hmax⟩ := tidy_reachable (pool_reachable hw).2
    have hgiven (p : ℕ × ℕ) (hp : p ∈ w.closing) (w' : World)
        (hleads : (machine maxIdle).Leads w w') : Out p.2 w'.pool :=
      (given_reached hw p hp).leads hleads
    refine ⟨htidy.idle, htidy.apart, hmax ▸ htidy.bound, hgiven, ?_⟩
    intro a w' hstep
    have houtcome := step_outcome hstep
    constructor
    · intro p hheld
      exact houtcome.opens hheld
    · rintro task conn rfl hstray
      cases houtcome with
      | kept _ _ hconn => exact absurd hconn hstray
      | full _ _ hconn => exact absurd hconn hstray
      | stray => rfl
      | ended _ _ _ h => simp at h

theorem held_by_one_relent :
    ∃ w, (machine 10).ReachedBy Own w ∧ w.held = [(3, 0), (2, 1)] ∧
      (w.held.map Prod.snd).Nodup := by
  have run {w w' : World} {a : Act} (h : (machine 10).ReachedBy Own w)
      (hstep : step w a = some w') (hown : Own w a) : (machine 10).ReachedBy Own w' :=
    .step h hown hstep
  have h := run (a := .acquire 1) (.init rfl) rfl (by simp [Own])
  have h := run (a := .connected 1) h rfl (by simp [Own])
  have h := run (a := .acquire 2) h rfl (by simp [Own])
  have h := run (a := .connected 2) h rfl (by simp [Own])
  have h := run (a := .release 1 0) h rfl (by rintro _ _ ⟨⟩; exact .inl (by decide))
  have h := run (a := .acquire 3) h rfl (by simp [Own])
  exact ⟨_, h, rfl, (held_by_one 10).1 _ h⟩

def run (w : World) : List Act → Option World
  | [] => some w
  | a :: as => (step w a).bind fun w' => run w' as

theorem reachable_run {maxIdle : ℕ} {w w' : World} {as : List Act}
    (hw : (machine maxIdle).Reachable w) (h : run w as = some w') :
    (machine maxIdle).Reachable w' := by
  exact hw.run (fun _ => rfl) (fun _ _ _ => rfl) (fun _ _ _ hstep => hstep)
    (fun _ _ _ => trivial) h

/-- A task that releases its connection a second time takes it from the task that has it by then,
and the next acquire hands it over again. A release whose `conn.close` raises has already removed
the connection. -/
theorem released_twice_shares :
    (∃ w, (machine 10).Reachable w ∧ w.pool.closed = false ∧ (2, 0) ∈ w.held ∧ (3, 0) ∈ w.held) ∧
      ∃ w w', (machine 0).Reachable w ∧
        run w [.release 1 0, .closeRaised 1 0] = some w' ∧ w'.pool.lentOut ≠ w.pool.lentOut := by
  have hshared : run (init 10) [.acquire 1, .connected 1, .release 1 0, .acquire 2, .release 1 0,
      .acquire 3] = some ⟨⟨10, false, [], [0], [true], 0, .idle⟩, [(3, 0), (2, 0)], [], []⟩ := by
    decide
  have hlent : run (init 0) [.acquire 1, .connected 1] =
      some ⟨⟨0, false, [], [0], [true], 0, .idle⟩, [(1, 0)], [], []⟩ := by decide
  constructor
  · exact ⟨_, reachable_run (.init rfl) hshared, rfl, by decide, by decide⟩
  · refine ⟨_, ⟨⟨0, false, [], [], [false], 0, .idle⟩, [], [], []⟩,
      reachable_run (.init rfl) hlent, by decide, by decide⟩

end RethinkDB.Async.PoolTasks
