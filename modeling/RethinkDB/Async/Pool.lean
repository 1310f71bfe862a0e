import Mathlib.Data.List.Basic
import RethinkDB.Lib.Machine

/-! `TrioConnectionPool`: tasks that acquire and release connections while one of them closes the
pool. What a task does between two awaits is one step. -/
namespace RethinkDB.Async.Pool
open RethinkDB.Lib

/-- How far `close` has come: the nursery runs one `conn.close` for each connection of its snapshot,
of which those `scheduled` have not started. -/
inductive Closing where
  | idle
  | running (scheduled begun : List ℕ)
  | returned
  | raised
  deriving Repr, DecidableEq

/-- `opened` says of every connection ever made whether it is open; `connecting` counts the
acquires inside `make_connection`. -/
structure State where
  maxIdle : ℕ
  closed : Bool
  connections : List ℕ
  lentOut : List ℕ
  opened : List Bool
  connecting : ℕ
  closing : Closing
  deriving Repr, DecidableEq

def init (maxIdle : ℕ) : State := ⟨maxIdle, false, [], [], [], 0, .idle⟩

def State.IsOpen (s : State) (conn : ℕ) : Prop := s.opened[conn]? = some true

instance (s : State) (conn : ℕ) : Decidable (s.IsOpen conn) := inferInstanceAs (Decidable (_ = _))

/-- The connection is closed, or lost. A `conn.close` has dropped its instance before it waits. -/
def State.shut (conn : ℕ) (s : State) : State := { s with opened := s.opened.set conn false }

/-- The `popleft` loop; nothing is its `IndexError`. -/
def popOpen (s : State) : List ℕ → Option (ℕ × List ℕ)
  | [] => none
  | conn :: rest => if s.IsOpen conn then some (conn, rest) else popOpen s rest

/-- `acquire` up to its await. -/
def acquire (s : State) : State :=
  if s.closed then s
  else match popOpen s s.connections with
    | some (conn, rest) => { s with connections := rest, lentOut := s.lentOut.insert conn }
    | none => { s with connections := [], connecting := s.connecting + 1 }

/-- `acquire` once `make_connection` has returned. -/
def connected (s : State) : State :=
  { s with
    opened := s.opened ++ [true], lentOut := s.lentOut.insert s.opened.length
    connecting := s.connecting - 1 }

/-- `release`; a connection that is not lent out is a `KeyError`. -/
def release (conn : ℕ) (s : State) : State :=
  if conn ∈ s.lentOut then
    let s := { s with lentOut := s.lentOut.erase conn }
    if s.connections.length < s.maxIdle then { s with connections := s.connections ++ [conn] }
    else s.shut conn
  else s

inductive Event where
  | acquire | connected | refused
  | release (conn : ℕ)
  | lost (conn : ℕ)
  | close
  | closeBegun (conn : ℕ)
  | closeEnded (conn : ℕ)
  | closeRaised
  | closeReturned
  deriving Repr, DecidableEq

def step (s : State) : Event → Option State
  | .acquire => some (Pool.acquire s)
  | .connected => if 0 < s.connecting then some (Pool.connected s) else none
  | .refused => if 0 < s.connecting then some { s with connecting := s.connecting - 1 } else none
  | .release conn => some (Pool.release conn s)
  | .lost conn => some (s.shut conn)
  | .close => match s.closing with
    | .idle => some { s with closing := .running (s.connections ++ s.lentOut) [] }
    | _ => none
  | .closeBegun conn => match s.closing with
    | .running scheduled begun =>
      if conn ∈ scheduled then
        some { s.shut conn with closing := .running (scheduled.erase conn) (conn :: begun) }
      else none
    | _ => none
  | .closeEnded conn => match s.closing with
    | .running scheduled begun =>
      if conn ∈ begun then some { s with closing := .running scheduled (begun.erase conn) }
      else none
    | _ => none
  | .closeRaised => match s.closing with
    | .running _ _ => some { s with closing := .raised }
    | _ => none
  | .closeReturned => match s.closing with
    | .running [] [] => some { s with closed := true, closing := .returned }
    | _ => none

def machine (maxIdle : ℕ) : Machine State Event where
  init s := s = init maxIdle
  step s e s' := step s e = some s'

/-- Once `close` has returned and no acquire is under way, no connection is open, so none that the
pool holds either. -/
def Tight (s : State) : Prop :=
  s.closing = .returned → s.connecting = 0 →
    (∀ conn, ¬s.IsOpen conn) ∧ ∀ conn ∈ s.connections, ¬s.IsOpen conn

/-- A connection that is made while `close` runs, or after it. -/
def Late (s : State) (e : Event) : Prop :=
  e = .connected ∧ s.closing ≠ .idle ∧ s.closing ≠ .raised

/-! ### What is open is known to the pool -/

/-- Before `close` an open connection is idle or lent out, while it runs its `conn.close` has not
started, and afterwards there is none. -/
def Tracked (s : State) : Prop :=
  ∀ conn, s.IsOpen conn → match s.closing with
    | .idle => conn ∈ s.connections ∨ conn ∈ s.lentOut
    | .running scheduled _ => conn ∈ scheduled
    | .returned => False
    | .raised => True

theorem isOpen_shut {s : State} {conn c : ℕ} : (s.shut conn).IsOpen c ↔ c ≠ conn ∧ s.IsOpen c := by
  unfold State.IsOpen State.shut
  rw [List.getElem?_set]
  by_cases h : conn = c
  · subst h
    simp
  · simp [h, Ne.symm h]

theorem isOpen_connected {s : State} {c : ℕ} (h : (connected s).IsOpen c) :
    s.IsOpen c ∨ c = s.opened.length := by
  unfold State.IsOpen connected at h
  rw [List.getElem?_append] at h
  split at h
  · exact .inl h
  · obtain ⟨hlt, _⟩ := List.getElem?_eq_some_iff.mp h
    rw [List.length_singleton] at hlt
    right
    omega

/-- What the loop passes over is not open. -/
theorem mem_of_popOpen {s : State} {l rest : List ℕ} {conn c : ℕ}
    (h : popOpen s l = some (conn, rest)) (hc : c ∈ l) (hopen : s.IsOpen c) :
    c = conn ∨ c ∈ rest := by
  induction l with
  | nil => cases hc
  | cons c' l ih =>
    rw [popOpen] at h
    split at h
    · cases h
      exact List.mem_cons.mp hc
    · rename_i hclosed
      rcases List.mem_cons.mp hc with rfl | hc
      · exact absurd hopen hclosed
      · exact ih h hc

theorem not_isOpen_of_popOpen {s : State} {l : List ℕ} {c : ℕ} (h : popOpen s l = none)
    (hc : c ∈ l) : ¬s.IsOpen c := by
  induction l with
  | nil => cases hc
  | cons c' l ih =>
    rw [popOpen] at h
    split at h
    · cases h
    · rename_i hclosed
      rcases List.mem_cons.mp hc with rfl | hc
      · exact hclosed
      · exact ih h hc

theorem acquire_keeps (s : State) :
    (acquire s).opened = s.opened ∧ (acquire s).closing = s.closing := by
  unfold acquire
  split
  · exact ⟨rfl, rfl⟩
  · split <;> exact ⟨rfl, rfl⟩

theorem known_acquire {s : State} {c : ℕ} (hopen : s.IsOpen c)
    (hc : c ∈ s.connections ∨ c ∈ s.lentOut) :
    c ∈ (acquire s).connections ∨ c ∈ (acquire s).lentOut := by
  unfold acquire
  split
  · exact hc
  · split
    · rename_i conn rest hpop
      rcases hc with hc | hc
      · rcases mem_of_popOpen hpop hc hopen with rfl | hc
        · exact .inr (List.mem_insert_self)
        · exact .inl hc
      · exact .inr (List.mem_insert_of_mem hc)
    · rename_i hpop
      rcases hc with hc | hc
      · exact absurd hopen (not_isOpen_of_popOpen hpop hc)
      · exact .inr hc

theorem isOpen_release {s : State} {conn c : ℕ} (h : (release conn s).IsOpen c) : s.IsOpen c := by
  unfold release at h
  split at h
  · dsimp only at h
    split at h
    · exact h
    · exact (isOpen_shut.mp h).2
  · exact h

theorem closing_release (s : State) (conn : ℕ) : (release conn s).closing = s.closing := by
  unfold release
  split
  · dsimp only
    split <;> rfl
  · rfl

theorem known_release {s : State} {conn c : ℕ} (hopen : (release conn s).IsOpen c)
    (hc : c ∈ s.connections ∨ c ∈ s.lentOut) :
    c ∈ (release conn s).connections ∨ c ∈ (release conn s).lentOut := by
  unfold release at hopen ⊢
  split
  · rename_i hlent
    rw [if_pos hlent] at hopen
    dsimp only at hopen ⊢
    split
    · rcases hc with hc | hc
      · exact .inl (List.mem_append_left _ hc)
      · by_cases hconn : c = conn
        · exact .inl (by simp [hconn])
        · exact .inr ((List.mem_erase_of_ne hconn).mpr hc)
    · rename_i hfull
      rw [if_neg hfull] at hopen
      have hconn : c ≠ conn := (isOpen_shut.mp hopen).1
      exact hc.imp id (List.mem_erase_of_ne hconn).mpr
  · exact hc

theorem Tracked.step {s s' : State} {e : Event} (hs : Tracked s) (hlate : ¬Late s e)
    (hstep : Pool.step s e = some s') : Tracked s' := by
  intro c hopen
  cases e with
  | acquire =>
    cases hstep
    obtain ⟨hopened, hclosing⟩ := acquire_keeps s
    have hold : s.IsOpen c := by rwa [State.IsOpen, ← hopened]
    have hc := hs c hold
    rw [hclosing]
    cases hphase : s.closing with
    | idle =>
      rw [hphase] at hc
      exact known_acquire hold hc
    | running scheduled begun => rwa [hphase] at hc
    | returned => rwa [hphase] at hc
    | raised => trivial
  | connected =>
    simp only [Pool.step] at hstep
    split at hstep
    · cases hstep
      have hclosing : (connected s).closing = s.closing := rfl
      rw [hclosing]
      cases hphase : s.closing with
      | idle =>
        rcases isOpen_connected hopen with hold | rfl
        · have hc := hs c hold
          rw [hphase] at hc
          exact hc.imp id List.mem_insert_of_mem
        · exact .inr List.mem_insert_self
      | running scheduled begun => exact absurd ⟨rfl, by simp [hphase], by simp [hphase]⟩ hlate
      | returned => exact absurd ⟨rfl, by simp [hphase], by simp [hphase]⟩ hlate
      | raised => trivial
    · cases hstep
  | refused =>
    simp only [Pool.step] at hstep
    split at hstep
    · cases hstep
      exact hs c hopen
    · cases hstep
  | release conn =>
    cases hstep
    have hc := hs c (isOpen_release hopen)
    rw [closing_release]
    cases hphase : s.closing with
    | idle =>
      rw [hphase] at hc
      exact known_release hopen hc
    | running scheduled begun => rwa [hphase] at hc
    | returned => rwa [hphase] at hc
    | raised => trivial
  | lost conn =>
    cases hstep
    exact hs c (isOpen_shut.mp hopen).2
  | close =>
    simp only [Pool.step] at hstep
    split at hstep
    · rename_i hphase
      cases hstep
      have hc := hs c hopen
      rw [hphase] at hc
      exact List.mem_append.mpr hc
    · cases hstep
  | closeBegun conn =>
    simp only [Pool.step] at hstep
    split at hstep
    · rename_i scheduled begun hphase
      split at hstep
      · cases hstep
        obtain ⟨hconn, hold⟩ := isOpen_shut.mp hopen
        have hc := hs c hold
        rw [hphase] at hc
        exact (List.mem_erase_of_ne hconn).mpr hc
      · cases hstep
    · cases hstep
  | closeEnded conn =>
    simp only [Pool.step] at hstep
    split at hstep
    · rename_i scheduled begun hphase
      split at hstep
      · cases hstep
        have hc := hs c hopen
        rw [hphase] at hc
        exact hc
      · cases hstep
    · cases hstep
  | closeRaised =>
    simp only [Pool.step] at hstep
    split at hstep
    · cases hstep
      trivial
    · cases hstep
  | closeReturned =>
    simp only [Pool.step] at hstep
    split at hstep
    · rename_i hphase
      cases hstep
      have hc := hs c hopen
      rw [hphase] at hc
      cases hc
    · cases hstep

theorem tracked_init (maxIdle : ℕ) : Tracked (init maxIdle) := by
  intro c hopen
  simp [State.IsOpen, init] at hopen

theorem Tracked.tight {s : State} (hs : Tracked s) : Tight s := by
  intro hreturned _
  have hnone (conn : ℕ) : ¬s.IsOpen conn := by
    intro hopen
    have hc := hs conn hopen
    rwa [hreturned] at hc
  exact ⟨hnone, fun conn _ => hnone conn⟩

/-! ### What a late connection comes to -/

def Made (s : State) : Prop :=
  (∀ conn ∈ s.connections, conn < s.opened.length) ∧ (∀ conn ∈ s.lentOut, conn < s.opened.length) ∧
    ∀ scheduled begun, s.closing = .running scheduled begun →
      ∀ conn ∈ scheduled, conn < s.opened.length

theorem popOpen_mem {s : State} {l rest : List ℕ} {conn : ℕ} (h : popOpen s l = some (conn, rest)) :
    conn ∈ l ∧ ∀ c ∈ rest, c ∈ l := by
  induction l with
  | nil => cases h
  | cons c' l ih =>
    rw [popOpen] at h
    split at h
    · cases h
      exact ⟨List.mem_cons_self, fun c hc => List.mem_cons_of_mem _ hc⟩
    · obtain ⟨hconn, hrest⟩ := ih h
      exact ⟨List.mem_cons_of_mem _ hconn, fun c hc => List.mem_cons_of_mem _ (hrest c hc)⟩

theorem Made.acquire {s : State} (hs : Made s) : Made (Pool.acquire s) := by
  obtain ⟨hidle, hlent, hscheduled⟩ := hs
  unfold Pool.acquire
  split
  · exact ⟨hidle, hlent, hscheduled⟩
  · split
    · rename_i conn rest hpop
      obtain ⟨hconn, hrest⟩ := popOpen_mem hpop
      refine ⟨fun c hc => hidle c (hrest c hc), fun c hc => ?_, hscheduled⟩
      rcases List.mem_insert_iff.mp hc with rfl | hc
      · exact hidle _ hconn
      · exact hlent c hc
    · exact ⟨by simp, hlent, hscheduled⟩

theorem Made.connected {s : State} (hs : Made s) : Made (Pool.connected s) := by
  obtain ⟨hidle, hlent, hscheduled⟩ := hs
  have hlength : (Pool.connected s).opened.length = s.opened.length + 1 := List.length_append
  refine ⟨fun c hc => ?_, fun c hc => ?_, fun scheduled begun hphase c hc => ?_⟩
  · have := hidle c hc
    omega
  · rcases List.mem_insert_iff.mp hc with rfl | hc
    · omega
    · have := hlent c hc
      omega
  · have := hscheduled scheduled begun hphase c hc
    omega

theorem Made.release {s : State} (hs : Made s) (conn : ℕ) : Made (Pool.release conn s) := by
  obtain ⟨hidle, hlent, hscheduled⟩ := hs
  unfold Pool.release
  split
  · rename_i hconn
    have herase (c : ℕ) (hc : c ∈ s.lentOut.erase conn) : c < s.opened.length :=
      hlent c (List.mem_of_mem_erase hc)
    dsimp only
    split
    · refine ⟨fun c hc => ?_, herase, hscheduled⟩
      rcases List.mem_append.mp hc with hc | hc
      · exact hidle c hc
      · exact List.mem_singleton.mp hc ▸ hlent conn hconn
    · have hlength : (s.opened.set conn false).length = s.opened.length := List.length_set
      exact ⟨hlength ▸ hidle, hlength ▸ herase, hlength ▸ hscheduled⟩
  · exact ⟨hidle, hlent, hscheduled⟩

theorem Made.shut {s : State} (hs : Made s) (conn : ℕ) : Made (s.shut conn) := by
  have hlength : (s.opened.set conn false).length = s.opened.length := List.length_set
  obtain ⟨hidle, hlent, hscheduled⟩ := hs
  exact ⟨hlength ▸ hidle, hlength ▸ hlent, hlength ▸ hscheduled⟩

theorem Made.step {s s' : State} {e : Event} (hs : Made s) (hstep : Pool.step s e = some s') :
    Made s' := by
  cases e with
  | acquire =>
    cases hstep
    exact hs.acquire
  | connected =>
    simp only [Pool.step] at hstep
    split at hstep
    · cases hstep
      exact hs.connected
    · cases hstep
  | refused =>
    simp only [Pool.step] at hstep
    split at hstep
    · cases hstep
      exact hs
    · cases hstep
  | release conn =>
    cases hstep
    exact hs.release conn
  | lost conn =>
    cases hstep
    exact hs.shut conn
  | close =>
    simp only [Pool.step] at hstep
    split at hstep
    · cases hstep
      obtain ⟨hidle, hlent, _⟩ := hs
      refine ⟨hidle, hlent, fun scheduled begun hphase c hc => ?_⟩
      cases hphase
      exact (List.mem_append.mp hc).elim (hidle c) (hlent c)
    · cases hstep
  | closeBegun conn =>
    simp only [Pool.step] at hstep
    split at hstep
    · rename_i scheduled begun hphase
      split at hstep
      · cases hstep
        obtain ⟨hidle, hlent, hscheduled⟩ := hs.shut conn
        refine ⟨hidle, hlent, fun _ _ hphase' c hc => ?_⟩
        cases hphase'
        exact hscheduled scheduled begun hphase c (List.mem_of_mem_erase hc)
      · cases hstep
    · cases hstep
  | closeEnded conn =>
    simp only [Pool.step] at hstep
    split at hstep
    · rename_i scheduled begun hphase
      split at hstep
      · cases hstep
        obtain ⟨hidle, hlent, hscheduled⟩ := hs
        refine ⟨hidle, hlent, fun _ _ hphase' => ?_⟩
        cases hphase'
        exact hscheduled scheduled begun hphase
      · cases hstep
    · cases hstep
  | closeRaised =>
    simp only [Pool.step] at hstep
    split at hstep
    · cases hstep
      exact ⟨hs.1, hs.2.1, by simp⟩
    · cases hstep
  | closeReturned =>
    simp only [Pool.step] at hstep
    split at hstep
    · cases hstep
      exact ⟨hs.1, hs.2.1, by simp⟩
    · cases hstep

theorem made_init (maxIdle : ℕ) : Made (init maxIdle) := by
  simp [Made, init]

/-- `conn` is open and none of the nursery's business. -/
def Astray (conn : ℕ) (s : State) : Prop :=
  s.IsOpen conn ∧ ∀ scheduled begun, s.closing = .running scheduled begun → conn ∉ scheduled

/-- The acquires under way can all fail. -/
theorem leads_refused {maxIdle conn n : ℕ} {s : State} (hn : s.connecting = n)
    (hs : Astray conn s) :
    ∃ s', (machine maxIdle).Leads s s' ∧ s'.connecting = 0 ∧ s'.closing = s.closing ∧
      Astray conn s' := by
  induction n generalizing s with
  | zero => exact ⟨s, .refl, hn, rfl, hs⟩
  | succ n ih =>
    have hstep : (machine maxIdle).step s .refused { s with connecting := s.connecting - 1 } :=
      if_pos (by omega)
    obtain ⟨s', hleads, hnone, hclosing, hs'⟩ :=
      @ih { s with connecting := s.connecting - 1 } (by rw [hn]; rfl) hs
    exact ⟨s', (Machine.Leads.single hstep).trans hleads, hnone, hclosing, hs'⟩

/-- The nursery can close its snapshot. -/
theorem leads_begun {maxIdle conn : ℕ} {s : State} {scheduled begun : List ℕ}
    (hphase : s.closing = .running scheduled begun) (hs : Astray conn s) :
    ∃ s' begun', (machine maxIdle).Leads s s' ∧ s'.connecting = s.connecting ∧
      s'.closing = .running [] begun' ∧ Astray conn s' := by
  induction scheduled generalizing s begun with
  | nil => exact ⟨s, begun, .refl, rfl, hphase, hs⟩
  | cons c scheduled ih =>
    obtain ⟨hopen, hout⟩ := hs
    have hnot := hout _ _ hphase
    rw [List.mem_cons, not_or] at hnot
    have hstep : (machine maxIdle).step s (.closeBegun c)
        { s.shut c with closing := .running scheduled (c :: begun) } := by
      simp [machine, Pool.step, hphase]
    obtain ⟨s', begun', hleads, hconnecting, hphase', hs'⟩ :=
      @ih { s.shut c with closing := .running scheduled (c :: begun) } (c :: begun) rfl
        ⟨isOpen_shut.mpr ⟨hnot.1, hopen⟩, by rintro _ _ ⟨⟩; exact hnot.2⟩
    exact ⟨s', begun', (Machine.Leads.single hstep).trans hleads, hconnecting, hphase', hs'⟩

theorem leads_ended {maxIdle conn : ℕ} {s : State} {begun : List ℕ}
    (hphase : s.closing = .running [] begun) (hs : Astray conn s) :
    ∃ s', (machine maxIdle).Leads s s' ∧ s'.connecting = s.connecting ∧
      s'.closing = .returned ∧ Astray conn s' := by
  induction begun generalizing s with
  | nil =>
    refine ⟨{ s with closed := true, closing := .returned }, .single (i := .closeReturned) ?_, rfl,
      rfl, hs.1, by simp⟩
    simp [machine, Pool.step, hphase]
  | cons c begun ih =>
    have hstep : (machine maxIdle).step s (.closeEnded c)
        { s with closing := .running [] begun } := by
      simp [machine, Pool.step, hphase]
    obtain ⟨s', hleads, hconnecting, hreturned, hs'⟩ :=
      @ih { s with closing := .running [] begun } rfl ⟨hs.1, by simp⟩
    exact ⟨s', (Machine.Leads.single hstep).trans hleads, hconnecting, hreturned, hs'⟩

/-- A connection that is astray once `close` runs can be left open for good. -/
theorem leads_leak {maxIdle conn : ℕ} {s : State} (hs : Astray conn s)
    (hidle : s.closing ≠ .idle) (hraised : s.closing ≠ .raised) :
    ∃ s', (machine maxIdle).Leads s s' ∧ ¬Tight s' := by
  obtain ⟨s₁, hleads₁, hnone, hclosing, hs₁⟩ := @leads_refused maxIdle conn _ s rfl hs
  have hend : ∃ s₂, (machine maxIdle).Leads s₁ s₂ ∧ s₂.connecting = s₁.connecting ∧
      s₂.closing = .returned ∧ Astray conn s₂ := by
    cases hphase : s₁.closing with
    | idle => exact absurd (hclosing.symm.trans hphase) hidle
    | raised => exact absurd (hclosing.symm.trans hphase) hraised
    | returned => exact ⟨s₁, .refl, rfl, hphase, hs₁⟩
    | running scheduled begun =>
      obtain ⟨s₂, begun', hleads₂, hconnecting₂, hphase₂, hs₂⟩ := leads_begun hphase hs₁
      obtain ⟨s₃, hleads₃, hconnecting₃, hreturned, hs₃⟩ := leads_ended hphase₂ hs₂
      exact ⟨s₃, hleads₂.trans hleads₃, hconnecting₃.trans hconnecting₂, hreturned, hs₃⟩
  obtain ⟨s₂, hleads₂, hconnecting, hreturned, hs₂⟩ := hend
  refine ⟨s₂, hleads₁.trans hleads₂, fun htight => ?_⟩
  exact (htight hreturned (hconnecting.trans hnone)).1 conn hs₂.1

/-- The new connection is not in the snapshot. -/
theorem astray_connected {s s' : State} (hs : Made s) (hstep : Pool.step s .connected = some s') :
    Astray s.opened.length s' ∧ s'.closing = s.closing := by
  simp only [Pool.step] at hstep
  split at hstep
  · cases hstep
    refine ⟨⟨?_, fun scheduled begun hphase hc => ?_⟩, rfl⟩
    · simp [State.IsOpen, connected]
    · exact absurd (hs.2.2 scheduled begun hphase _ hc) (Nat.lt_irrefl _)
  · cases hstep

/-- Without late connections nothing leaks in any run, and any late connection leads to a leak. -/
theorem tight_iff_prompt (maxIdle : ℕ) :
    (∀ s, (machine maxIdle).ReachedBy (fun s e => ¬Late s e) s → Tight s) ∧
      ∀ s e s', (machine maxIdle).Reachable s → Late s e → (machine maxIdle).step s e s' →
        ∃ s'', (machine maxIdle).Leads s' s'' ∧ ¬Tight s'' := by
  constructor
  · intro s hs
    have htracked : Tracked s := hs.invariant
      (fun s hinit => hinit ▸ tracked_init maxIdle)
      (fun s e s' _ hs hlate hstep => hs.step hlate hstep)
    exact htracked.tight
  · rintro s e s' hreach ⟨rfl, hidle, hraised⟩ hstep
    have hmade : Made s := hreach.invariant
      (fun s hinit => hinit ▸ made_init maxIdle)
      (fun s e s' _ hs _ hstep => hs.step hstep)
    obtain ⟨hastray, hclosing⟩ := astray_connected hmade hstep
    exact leads_leak hastray (hclosing ▸ hidle) (hclosing ▸ hraised)

theorem tight_iff_prompt_closed :
    ∃ s, (machine 10).ReachedBy (fun s e => ¬Late s e) s ∧ s.closing = .returned ∧
      s.opened = [false] ∧ Tight s := by
  have run {s s' : State} {e : Event} (h : (machine 10).ReachedBy (fun s e => ¬Late s e) s)
      (hstep : step s e = some s') (hlate : ¬Late s e) :
      (machine 10).ReachedBy (fun s e => ¬Late s e) s' := .step h hlate hstep
  have h := run (e := .acquire) (.init rfl) rfl (by simp [Late])
  have h := run (e := .connected) h rfl (by simp [Late, init, acquire, popOpen])
  have h := run (e := .close) h rfl (by simp [Late])
  have h := run (e := .closeBegun 0) h rfl (by simp [Late])
  have h := run (e := .closeEnded 0) h rfl (by simp [Late])
  have h := run (e := .closeReturned) h rfl (by simp [Late])
  exact ⟨_, h, rfl, rfl, (tight_iff_prompt 10).1 _ h⟩

def run (s : State) : List Event → Option State
  | [] => some s
  | e :: es => (step s e).bind fun s' => run s' es

theorem reachable_run {maxIdle : ℕ} {s s' : State} {es : List Event}
    (hs : (machine maxIdle).Reachable s) (h : run s es = some s') :
    (machine maxIdle).Reachable s' := by
  exact hs.run (fun _ => rfl) (fun _ _ _ => rfl) (fun _ _ _ hstep => hstep)
    (fun _ _ _ => trivial) h

/-- An acquire gets its connection while `close` waits: it is lent out open, and released into the
pool once `close` has returned. -/
theorem acquired_while_closing_leaks :
    ∃ s, (machine 10).Reachable s ∧ s.closed = true ∧ s.connecting = 0 ∧ s.connections = [0] ∧
      s.IsOpen 0 ∧ ¬Tight s := by
  have hrun : run (init 10) [.acquire, .close, .connected, .closeReturned, .release 0] =
      some ⟨10, true, [0], [], [true], 0, .returned⟩ := by decide
  refine ⟨_, reachable_run (.init rfl) hrun, rfl, rfl, rfl, by decide, fun htight => ?_⟩
  exact (htight rfl rfl).1 0 (by decide)

end RethinkDB.Async.Pool
