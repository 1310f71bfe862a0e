import Mathlib.Data.List.Basic

/-! Sequential programs over a mutable state, with exceptions and with calls that
have not come back yet, and the weakest-precondition rules later modules reason with. -/
namespace RethinkDB.Lib

theorem bind_eq_ok {ε α β : Type} {x : Except ε α} {f : α → Except ε β} {b : β} :
    x >>= f = .ok b ↔ ∃ a, x = .ok a ∧ f a = .ok b := by
  cases x with
  | ok a => exact ⟨fun h => ⟨a, rfl, h⟩, by rintro ⟨_, ⟨⟩, h⟩; exact h⟩
  | error e => exact ⟨fun h => (by cases h), by rintro ⟨_, ⟨⟩, _⟩⟩

theorem map_eq_ok {ε α β : Type} {x : Except ε α} {f : α → β} {b : β} :
    x.map f = .ok b ↔ ∃ a, x = .ok a ∧ f a = b := by
  cases x with
  | ok a => exact ⟨fun h => ⟨a, rfl, Except.ok.inj h⟩, by rintro ⟨_, ⟨⟩, rfl⟩; rfl⟩
  | error e => exact ⟨fun h => (by cases h), by rintro ⟨_, ⟨⟩, _⟩⟩

/-- How a call stands when the schedule it runs under is used up. -/
inductive Outcome (ε α : Type) where
  | ok (a : α)
  | error (e : ε)
  | running
  deriving Repr, DecidableEq

namespace Outcome
variable {ε α β : Type}

def map (f : α → β) : Outcome ε α → Outcome ε β
  | .ok a => .ok (f a)
  | .error e => .error e
  | .running => .running

def mapError {ε' : Type} (f : ε → ε') : Outcome ε α → Outcome ε' α
  | .ok a => .ok a
  | .error e => .error (f e)
  | .running => .running

@[simp] theorem map_eq_error {f : α → β} {o : Outcome ε α} {e : ε} : o.map f = .error e ↔ o = .error e := by
  cases o <;> simp [map]

@[simp] theorem map_eq_running {f : α → β} {o : Outcome ε α} : o.map f = .running ↔ o = .running := by
  cases o <;> simp [map]

end Outcome

/-- `running` is not an exception: no handler sees it, the call is simply not over. -/
def Prog (σ ε α : Type) : Type := σ → Outcome ε α × σ

namespace Prog
variable {σ τ ε α β : Type}

/-- What follows a call: only a call that returned lets the next one start. -/
def after (f : α → Prog σ ε β) : Outcome ε α × σ → Outcome ε β × σ
  | (.ok a, s) => f a s
  | (.error e, s) => (.error e, s)
  | (.running, s) => (.running, s)

instance : Monad (Prog σ ε) where
  pure a := fun s => (.ok a, s)
  bind m f := fun s => after f (m s)

def throw (e : ε) : Prog σ ε α := fun s => (.error e, s)

def read (f : σ → α) : Prog σ ε α := fun s => (.ok (f s), s)

def modify (f : σ → σ) : Prog σ ε Unit := fun s => (.ok (), f s)

def stay : Prog σ ε α := fun s => (.running, s)

def ofExcept : Except ε α → Prog σ ε α
  | .ok a => fun s => (.ok a, s)
  | .error e => throw e

/-- `if c: raise e`. -/
def raiseIf (c : Prop) [Decidable c] (e : ε) : Prog σ ε Unit := if c then throw e else pure ()

/-- `try m except e: h e`. -/
def handle (m : Prog σ ε α) (h : ε → Prog σ ε α) : Prog σ ε α := fun s =>
  match m s with
  | (.error e, s') => h e s'
  | (.ok a, s') => (.ok a, s')
  | (.running, s') => (.running, s')

/-- `try m finally f`. -/
def ensure (f : σ → σ) (m : Prog σ ε α) : Prog σ ε α := fun s =>
  match m s with
  | (.running, s') => (.running, s')
  | (.ok a, s') => (.ok a, f s')
  | (.error e, s') => (.error e, f s')

/-- Run a program on a component of the state. -/
def zoom (get : σ → τ) (set : τ → σ → σ) (m : Prog τ ε α) : Prog σ ε α := fun s =>
  ((m (get s)).1, set (m (get s)).2 s)

/-- A `for` loop. -/
def forEach (f : β → Prog σ ε Unit) : List β → Prog σ ε Unit
  | [] => pure ()
  | b :: bs => do
    f b
    forEach f bs

/-- A `while True` loop, for at most so many turns; a turn says whether it goes on. -/
def turns (turn : Prog σ ε Bool) : ℕ → Prog σ ε Unit
  | 0 => stay
  | n + 1 => do
    if ← turn then turns turn n

/-- Under another name for what it raises. -/
def mapError {ε' : Type} (f : ε → ε') (m : Prog σ ε α) : Prog σ ε' α := fun s => ((m s).1.mapError f, (m s).2)

/-- From `s`, the outcome of `m` and the state it leaves satisfy `Q`. -/
def wp (m : Prog σ ε α) (Q : Outcome ε α → σ → Prop) (s : σ) : Prop := Q (m s).1 (m s).2

/-- What must hold between the two halves of a sequence. -/
def bindPost (f : α → Prog σ ε β) (R : Outcome ε β → σ → Prop) : Outcome ε α → σ → Prop
  | .ok a, s => wp (f a) R s
  | .error e, s => R (.error e) s
  | .running, s => R .running s

variable {Q Q' : Outcome ε α → σ → Prop} {R : Outcome ε β → σ → Prop} {s : σ}

theorem wp.mono {m : Prog σ ε α} (hm : wp m Q s) (hQ : ∀ o s', Q o s' → Q' o s') :
    wp m Q' s := hQ _ _ hm

theorem wp.and {m : Prog σ ε α} (hm : wp m Q s) (hm' : wp m Q' s) :
    wp m (fun o s' => Q o s' ∧ Q' o s') s := ⟨hm, hm'⟩

@[simp] theorem wp_pure (a : α) : wp (pure a : Prog σ ε α) Q s ↔ Q (.ok a) s := Iff.rfl

@[simp] theorem wp_throw (e : ε) : wp (throw e : Prog σ ε α) Q s ↔ Q (.error e) s := Iff.rfl

@[simp] theorem wp_stay : wp (stay : Prog σ ε α) Q s ↔ Q .running s := Iff.rfl

@[simp] theorem wp_read (f : σ → α) : wp (read f : Prog σ ε α) Q s ↔ Q (.ok (f s)) s := Iff.rfl

@[simp] theorem wp_modify (f : σ → σ) {Q : Outcome ε Unit → σ → Prop} :
    wp (modify f : Prog σ ε Unit) Q s ↔ Q (.ok ()) (f s) := Iff.rfl

@[simp] theorem wp_ite {c : Prop} [Decidable c] (m m' : Prog σ ε α) :
    wp (if c then m else m') Q s ↔ (c → wp m Q s) ∧ (¬c → wp m' Q s) := by
  by_cases h : c <;> simp [h]

@[simp] theorem wp_ofExcept_ok (a : α) :
    wp (ofExcept (.ok a) : Prog σ ε α) Q s ↔ Q (.ok a) s := Iff.rfl

@[simp] theorem wp_ofExcept_error (e : ε) :
    wp (ofExcept (.error e) : Prog σ ε α) Q s ↔ Q (.error e) s := Iff.rfl

@[simp] theorem wp_zoom (get : σ → τ) (set : τ → σ → σ) (m : Prog τ ε α) :
    wp (zoom get set m) Q s ↔ wp m (fun o t => Q o (set t s)) (get s) := Iff.rfl

@[simp] theorem wp_mapError {ε' : Type} (f : ε → ε') (m : Prog σ ε α) {Q : Outcome ε' α → σ → Prop} :
    wp (mapError f m) Q s ↔ wp m (fun o => Q (o.mapError f)) s := Iff.rfl

/-- What must hold before a handler takes over. -/
def handlePost (h : ε → Prog σ ε α) (Q : Outcome ε α → σ → Prop) : Outcome ε α → σ → Prop
  | .error e, s => wp (h e) Q s
  | .ok a, s => Q (.ok a) s
  | .running, s => Q .running s

@[simp] theorem wp_handle (m : Prog σ ε α) (h : ε → Prog σ ε α) :
    wp (handle m h) Q s ↔ wp m (handlePost h Q) s := by
  unfold wp handle
  rcases m s with ⟨a | e | _, s'⟩ <;> exact Iff.rfl

@[simp] theorem handlePost_ok (h : ε → Prog σ ε α) (a : α) :
    handlePost h Q (.ok a) s ↔ Q (.ok a) s := Iff.rfl

@[simp] theorem handlePost_error (h : ε → Prog σ ε α) (e : ε) :
    handlePost h Q (.error e) s ↔ wp (h e) Q s := Iff.rfl

@[simp] theorem wp_ensure (f : σ → σ) (m : Prog σ ε α) :
    wp (ensure f m) Q s ↔ wp m (fun o s' => Q o (if o matches .running then s' else f s')) s := by
  unfold wp ensure
  rcases m s with ⟨a | e | _, s'⟩ <;> exact Iff.rfl

@[simp] theorem wp_bind (m : Prog σ ε α) (f : α → Prog σ ε β) :
    wp (m >>= f) R s ↔ wp m (bindPost f R) s := by
  change R (after f (m s)).1 (after f (m s)).2 ↔ bindPost f R (m s).1 (m s).2
  rcases m s with ⟨a | e | _, s'⟩ <;> exact Iff.rfl

theorem wp_map (f : α → β) (m : Prog σ ε α) :
    wp (f <$> m) R s ↔ wp m (bindPost (fun a => pure (f a)) R) s := wp_bind m _

@[simp] theorem bindPost_ok (f : α → Prog σ ε β) (a : α) :
    bindPost f R (.ok a) s ↔ wp (f a) R s := Iff.rfl

@[simp] theorem bindPost_error (f : α → Prog σ ε β) (e : ε) :
    bindPost f R (.error e) s ↔ R (.error e) s := Iff.rfl

@[simp] theorem bindPost_running (f : α → Prog σ ε β) :
    bindPost f R .running s ↔ R .running s := Iff.rfl

theorem wp_raiseIf_bind {c : Prop} [Decidable c] {e : ε} {f : Unit → Prog σ ε β}
    (herr : c → R (.error e) s) (hok : ¬c → wp (f ()) R s) : wp (raiseIf c e >>= f) R s := by
  rw [wp_bind, raiseIf, wp_ite]
  exact ⟨herr, hok⟩

/-- Passing over a pure computation that may raise. -/
theorem wp_ofExcept_bind {x : Except ε α} {f : α → Prog σ ε β} (herr : ∀ e, R (.error e) s)
    (hok : ∀ a, x = .ok a → wp (f a) R s) : wp (ofExcept x >>= f) R s := by
  rw [wp_bind]
  cases x with
  | error e => exact herr e
  | ok a => exact hok a rfl

theorem wp_ofExcept_bind_ok {x : Except ε α} {a : α} (hx : x = .ok a) {f : α → Prog σ ε β} :
    wp (ofExcept x >>= f) R s ↔ wp (f a) R s := by
  rw [hx, wp_bind, wp_ofExcept_ok, bindPost_ok]

theorem wp_raiseIf_bind_not {c : Prop} [Decidable c] (hc : ¬c) {e : ε} {f : Unit → Prog σ ε β} :
    wp (raiseIf c e >>= f) R s ↔ wp (f ()) R s := by
  rw [wp_bind, raiseIf, if_neg hc, wp_pure, bindPost_ok]

/-- Passing over a call whose result is known. -/
theorem wp_bind_of_eq {m : Prog σ ε α} {a : α} {s' : σ} (h : m s = (.ok a, s'))
    {f : α → Prog σ ε β} : wp (m >>= f) R s ↔ wp (f a) R s' := by
  rw [wp_bind, wp, h, bindPost_ok]

theorem wp_of_eq {m : Prog σ ε α} {o : Outcome ε α} {s' : σ} (h : m s = (o, s')) :
    wp m Q s ↔ Q o s' := by
  rw [wp, h]

/-- A call of which only the result is worked on. -/
theorem bind_pure_map (m : Prog σ ε α) (f : α → β) (s : σ) :
    (m >>= fun a => pure (f a)) s = ((m s).1.map f, (m s).2) := by
  change after _ (m s) = _
  rcases m s with ⟨a | e | _, s'⟩ <;> rfl

theorem bind_of_ok {m : Prog σ ε α} {a : α} {s' : σ} (h : m s = (.ok a, s')) (f : α → Prog σ ε β) :
    (m >>= f) s = f a s' := by
  change after f (m s) = _
  rw [h]
  rfl

theorem bind_of_error {m : Prog σ ε α} {e : ε} {s' : σ} (h : m s = (.error e, s'))
    (f : α → Prog σ ε β) : (m >>= f) s = (.error e, s') := by
  change after f (m s) = _
  rw [h]
  rfl

theorem raiseIf_pos {c : Prop} [Decidable c] (h : c) (e : ε) (s : σ) :
    raiseIf c e s = (.error e, s) := by
  unfold raiseIf
  rw [if_pos h]
  rfl

theorem raiseIf_neg {c : Prop} [Decidable c] (h : ¬c) (e : ε) (s : σ) :
    raiseIf c e s = (.ok (), s) := by
  unfold raiseIf
  rw [if_neg h]
  rfl

/-- What a call comes to. -/
theorem eq_of_wp {m : Prog σ ε α} {o : Outcome ε α} {s' : σ} (h : wp m (fun o' t => o' = o ∧ t = s') s) :
    m s = (o, s') := Prod.ext h.1 h.2

/-- What must hold after a turn: `I` when the loop goes on, `R` when it is left. -/
def turnPost (I : σ → Prop) (R : Outcome ε Unit → σ → Prop) : Outcome ε Bool → σ → Prop
  | .ok true, s => I s
  | .ok false, s => R (.ok ()) s
  | .error e, s => R (.error e) s
  | .running, s => R .running s

/-- The invariant rule of the loop. -/
theorem wp_turns {turn : Prog σ ε Bool} {I : σ → Prop} {R : Outcome ε Unit → σ → Prop}
    (hstay : ∀ s, I s → R .running s) (hturn : ∀ s, I s → wp turn (turnPost I R) s)
    (n : ℕ) (hs : I s) : wp (turns turn n) R s := by
  induction n generalizing s with
  | zero => exact hstay s hs
  | succ n ih =>
    rw [turns, wp_bind]
    refine (hturn s hs).mono ?_
    rintro (_ | _ | _) s' h
    · rename_i again
      cases again with
      | true => exact ih h
      | false => exact h
    · exact h
    · exact h

/-- More turns do not change what a loop that is over came to. -/
theorem turns_stable {turn : Prog σ ε Bool} {n : ℕ} {s : σ} (h : (turns turn n s).1 ≠ .running)
    (k : ℕ) : turns turn (n + k) s = turns turn n s := by
  induction n generalizing s with
  | zero => exact absurd rfl h
  | succ n ih =>
    have hturn (m : ℕ) : turns turn (m + 1) s =
        after (fun again => if again then turns turn m else pure ()) (turn s) := rfl
    rw [Nat.succ_add, hturn, hturn]
    rw [hturn] at h
    rcases hs : turn s with ⟨again | e | _, s'⟩
    · rw [hs] at h
      cases again with
      | true => exact ih h
      | false => rfl
    · rfl
    · rfl

/-- The loop comes to an end, given turns enough. -/
def Ends (turn : Prog σ ε Bool) (s : σ) (o : Outcome ε Unit) (s' : σ) : Prop :=
  o ≠ .running ∧ ∃ n, turns turn n s = (o, s')

section Ends
variable {turn : Prog σ ε Bool} {s s' : σ} {o : Outcome ε Unit}

theorem Ends.step {s₁ : σ} (h : Ends turn s₁ o s') (hturn : turn s = (.ok true, s₁)) :
    Ends turn s o s' := by
  obtain ⟨hover, n, hn⟩ := h
  refine ⟨hover, n + 1, ?_⟩
  show after _ (turn s) = (o, s')
  rw [hturn]
  exact hn

theorem Ends.stop (hturn : turn s = (.ok false, s')) : Ends turn s (.ok ()) s' := by
  refine ⟨by simp, 1, ?_⟩
  show after _ (turn s) = (.ok (), s')
  rw [hturn]
  rfl

/-- Two states that the next turn makes the same of. -/
theorem Ends.congr {s₁ : σ} (h : Ends turn s₁ o s') (hturn : turn s = turn s₁) :
    Ends turn s o s' := by
  obtain ⟨hover, n, hn⟩ := h
  refine ⟨hover, n, ?_⟩
  cases n with
  | zero =>
    cases hn
    exact absurd rfl hover
  | succ n =>
    change after _ (turn s) = _
    rw [hturn]
    exact hn

theorem Ends.error {e : ε} (hturn : turn s = (.error e, s')) : Ends turn s (.error e) s' := by
  refine ⟨by simp, 1, ?_⟩
  show after _ (turn s) = (.error e, s')
  rw [hturn]
  rfl

end Ends

/-! ### Calls with fuel -/

/-- More fuel makes no difference to a call that is over. -/
def Settles (m : ℕ → Prog σ ε α) : Prop :=
  ∀ n s, (m n s).1 ≠ .running → ∀ k, m (n + k) s = m n s

theorem Settles.bind {m : ℕ → Prog σ ε α} {f : ℕ → α → Prog σ ε β} (hm : Settles m)
    (hf : ∀ a, Settles fun n => f n a) : Settles fun n => m n >>= f n := by
  intro n s hover k
  change after (f (n + k)) (m (n + k) s) = after (f n) (m n s)
  change (after (f n) (m n s)).1 ≠ .running at hover
  have hfirst : (m n s).1 ≠ .running := by
    intro hrunning
    rcases hs : m n s with ⟨_ | _ | _, s'⟩ <;> rw [hs] at hrunning hover
    · cases hrunning
    · cases hrunning
    · exact hover rfl
  rw [hm n s hfirst k]
  rcases hs : m n s with ⟨a | e | _, s'⟩ <;> rw [hs] at hover
  · exact hf a n s' hover k
  · rfl
  · rfl

theorem Settles.handle {m : ℕ → Prog σ ε α} {h : ε → Prog σ ε α} (hm : Settles m) :
    Settles fun n => handle (m n) h := by
  intro n s hover k
  change (Prog.handle (m n) h s).1 ≠ .running at hover
  change Prog.handle (m (n + k)) h s = Prog.handle (m n) h s
  unfold Prog.handle at hover ⊢
  have hfirst : (m n s).1 ≠ .running := by
    intro hrunning
    rcases hs : m n s with ⟨_ | _ | _, s'⟩ <;> rw [hs] at hrunning hover
    · cases hrunning
    · cases hrunning
    · exact hover rfl
  rw [hm n s hfirst k]

theorem Settles.zoom {get : σ → τ} {set : τ → σ → σ} {m : ℕ → Prog τ ε α} (hm : Settles m) :
    Settles fun n => zoom get set (m n) := by
  intro n s hover k
  change ((m (n + k) (get s)).1, _) = ((m n (get s)).1, _)
  rw [hm n (get s) hover k]

/-! ### What holds when a call returns -/

/-- Where `m` returns from `s`, the result and the state it leaves satisfy `P`. -/
def Yields (m : Prog σ ε α) (P : α → σ → Prop) (s : σ) : Prop :=
  wp m (fun o s' => ∀ a, o = .ok a → P a s') s

section Yields
variable {P P' : α → σ → Prop} {R : β → σ → Prop}

theorem Yields.mono {m : Prog σ ε α} (hm : m.Yields P s) (hP : ∀ a s', P a s' → P' a s') :
    m.Yields P' s := fun a ha => hP a _ (hm a ha)

theorem Yields.and {m : Prog σ ε α} (hm : m.Yields P s) (hm' : m.Yields P' s) :
    m.Yields (fun a s' => P a s' ∧ P' a s') s := fun a ha => ⟨hm a ha, hm' a ha⟩

theorem yields_pure {a : α} (h : P a s) : (pure a : Prog σ ε α).Yields P s := by
  rintro _ ⟨⟩
  exact h

theorem yields_throw (e : ε) : (throw e : Prog σ ε α).Yields P s := by
  rintro _ ⟨⟩

theorem yields_read {f : σ → α} (h : P (f s) s) : (read f : Prog σ ε α).Yields P s := by
  rintro _ ⟨⟩
  exact h

theorem yields_modify {f : σ → σ} {P : Unit → σ → Prop} (h : P () (f s)) :
    (modify f : Prog σ ε Unit).Yields P s := by
  rintro _ ⟨⟩
  exact h

theorem yields_raiseIf {c : Prop} [Decidable c] {e : ε} {P : Unit → σ → Prop} (h : ¬c → P () s) :
    (raiseIf c e : Prog σ ε Unit).Yields P s := by
  unfold raiseIf
  split
  · exact yields_throw e
  · exact yields_pure (h ‹_›)

theorem yields_zoom {get : σ → τ} {set : τ → σ → σ} {m : Prog τ ε α}
    (hm : m.Yields (fun a t => P a (set t s)) (get s)) : (zoom get set m).Yields P s := hm

/-- Only a call that returned lets the next one start. -/
theorem Yields.bind {m : Prog σ ε α} {f : α → Prog σ ε β}
    (hm : m.Yields (fun a s' => (f a).Yields R s') s) : (m >>= f).Yields R s := by
  unfold Yields
  rw [wp_bind]
  refine (show wp m _ s from hm).mono ?_
  intro o s' h
  cases o with
  | ok a => exact h a rfl
  | error e => rintro _ ⟨⟩
  | running => rintro _ ⟨⟩

/-- A handler may return for the call it guards. -/
theorem yields_handle {m : Prog σ ε α} {h : ε → Prog σ ε α} (hm : m.Yields P s)
    (hh : ∀ e s', (h e).Yields P s') : (handle m h).Yields P s := by
  unfold Yields
  rw [wp_handle]
  refine (show wp m _ s from hm).mono ?_
  intro o s' hok
  cases o with
  | ok a => exact hok
  | error e => exact hh e s'
  | running => rintro _ ⟨⟩

end Yields

/-! ### What a call raises -/

/-- Whatever `m` raises satisfies `P`. -/
def Throws (P : ε → Prop) (m : Prog σ ε α) : Prop :=
  ∀ s, wp m (fun o _ => ∀ e, o = .error e → P e) s

section Throws
variable {P : ε → Prop}

theorem throws_pure (a : α) : Throws P (pure a : Prog σ ε α) := by
  rintro s _ ⟨⟩

theorem throws_throw {e : ε} (h : P e) : Throws P (throw e : Prog σ ε α) := by
  rintro s _ ⟨⟩
  exact h

theorem throws_read (f : σ → α) : Throws P (read f : Prog σ ε α) := by
  rintro s _ ⟨⟩

theorem throws_modify (f : σ → σ) : Throws P (modify f : Prog σ ε Unit) := by
  rintro s _ ⟨⟩

theorem throws_raiseIf {c : Prop} [Decidable c] {e : ε} (h : P e) :
    Throws P (raiseIf c e : Prog σ ε Unit) := by
  unfold raiseIf
  split
  · exact throws_throw h
  · exact throws_pure ()

theorem Throws.ite {c : Prop} [Decidable c] {m m' : Prog σ ε α} (hm : Throws P m)
    (hm' : Throws P m') : Throws P (if c then m else m') := by
  split <;> assumption

theorem Throws.bind {m : Prog σ ε α} {f : α → Prog σ ε β} (hm : Throws P m)
    (hf : ∀ a, Throws P (f a)) : Throws P (m >>= f) := by
  intro s
  rw [wp_bind]
  refine (hm s).mono ?_
  rintro (a | e | _) s' h
  · exact hf a s'
  · rintro _ ⟨⟩
    exact h e rfl
  · rintro _ ⟨⟩

theorem Throws.handle {m : Prog σ ε α} {h : ε → Prog σ ε α} (hm : Throws P m)
    (hh : ∀ e, P e → Throws P (h e)) : Throws P (handle m h) := by
  intro s
  rw [wp_handle]
  refine (hm s).mono ?_
  rintro (a | e | _) s' hP
  · rintro _ ⟨⟩
  · exact hh e (hP e rfl) s'
  · rintro _ ⟨⟩

theorem Throws.zoom {get : σ → τ} {set : τ → σ → σ} {m : Prog τ ε α} (hm : Throws P m) :
    Throws P (zoom get set m) := fun s => hm (get s)

theorem Throws.turns {turn : Prog σ ε Bool} (h : Throws P turn) (n : ℕ) :
    Throws P (turns turn n) := by
  induction n with
  | zero => rintro s _ ⟨⟩
  | succ n ih => exact h.bind fun _ => ih.ite (throws_pure ())

end Throws

/-! ### Relations a program respects -/

/-- `m` comes back, and the state it leaves is related to the one it found. -/
def Respects (r : σ → σ → Prop) (m : Prog σ ε α) : Prop :=
  ∀ s, wp m (fun o s' => o ≠ .running ∧ r s s') s

section Respects
variable {r : σ → σ → Prop}

theorem Respects.bind [IsTrans σ r] {m : Prog σ ε α} {f : α → Prog σ ε β}
    (hm : Respects r m) (hf : ∀ a, Respects r (f a)) : Respects r (m >>= f) := by
  intro s
  rw [wp_bind]
  refine (hm s).mono ?_
  rintro (a | e | _) s' ⟨hback, h⟩
  · rw [bindPost_ok]
    exact (hf a s').mono fun o s'' h' => ⟨h'.1, IsTrans.trans _ _ _ h h'.2⟩
  · exact ⟨by simp, h⟩
  · exact absurd rfl hback

/-- Passing over a program that comes back and keeps `r`. -/
theorem Respects.wp_bind {m : Prog σ ε α} {f : α → Prog σ ε β} (hm : Respects r m)
    (herr : ∀ e s', r s s' → R (.error e) s') (hok : ∀ a s', r s s' → wp (f a) R s') :
    wp (m >>= f) R s := by
  rw [Prog.wp_bind]
  refine (hm s).mono ?_
  rintro (a | e | _) s' ⟨hback, h⟩
  · exact hok a s' h
  · exact herr e s' h
  · exact absurd rfl hback

theorem respects_pure [Std.Refl r] (a : α) : Respects r (pure a : Prog σ ε α) := by
  intro s
  exact ⟨by simp, Std.Refl.refl s⟩

theorem respects_throw [Std.Refl r] (e : ε) : Respects r (throw e : Prog σ ε α) := by
  intro s
  rw [wp_throw]
  exact ⟨by simp, Std.Refl.refl s⟩

theorem respects_read [Std.Refl r] (f : σ → α) : Respects r (read f : Prog σ ε α) := by
  intro s
  rw [wp_read]
  exact ⟨by simp, Std.Refl.refl s⟩

theorem respects_modify {f : σ → σ} (hf : ∀ s, r s (f s)) :
    Respects r (modify f : Prog σ ε Unit) := by
  intro s
  rw [wp_modify]
  exact ⟨by simp, hf s⟩

theorem respects_ofExcept [Std.Refl r] (x : Except ε α) :
    Respects r (ofExcept x : Prog σ ε α) := by
  cases x
  · exact respects_throw _
  · exact respects_pure _

theorem Respects.ite {c : Prop} [Decidable c] {m m' : Prog σ ε α} (hm : Respects r m)
    (hm' : Respects r m') : Respects r (if c then m else m') := by
  split <;> assumption

theorem Respects.forEach [Std.Refl r] [IsTrans σ r] {f : β → Prog σ ε Unit}
    (hf : ∀ b, Respects r (f b)) : ∀ bs : List β, Respects r (forEach f bs)
  | [] => respects_pure ()
  | b :: bs => (hf b).bind fun _ => Respects.forEach hf bs

end Respects

/-! ### Invariants of calls that may not come back -/

/-- `I` holds again whenever a call of `m` is over, `J` while it is not. -/
def Maintains (I J : σ → Prop) (m : Prog σ ε α) : Prop :=
  ∀ s, I s → wp m (fun o s' => (o = .running → J s') ∧ (o ≠ .running → I s')) s

section Maintains
variable {I J : σ → Prop}

theorem Maintains.bind {m : Prog σ ε α} {f : α → Prog σ ε β} (hm : Maintains I J m)
    (hf : ∀ a, Maintains I J (f a)) : Maintains I J (m >>= f) := by
  intro s hs
  rw [wp_bind]
  refine (hm s hs).mono ?_
  rintro (a | e | _) s' ⟨hrun, hover⟩
  · exact hf a s' (hover (by simp))
  · exact ⟨by simp, fun _ => hover (by simp)⟩
  · exact ⟨fun _ => hrun rfl, by simp⟩

/-- A call that keeps a relation under which `I` is stable. -/
theorem Respects.maintains {r : σ → σ → Prop} {m : Prog σ ε α} (hm : Respects r m)
    (hI : ∀ s s', r s s' → I s → I s') : Maintains I J m :=
  fun s hs => (hm s).mono fun _ s' h => ⟨fun ho => absurd ho h.1, fun _ => hI s s' h.2 hs⟩

theorem maintains_pure (a : α) : Maintains I J (pure a : Prog σ ε α) := by
  intro s hs
  exact ⟨by simp, fun _ => hs⟩

theorem maintains_throw (e : ε) : Maintains I J (throw e : Prog σ ε α) := by
  intro s hs
  rw [wp_throw]
  exact ⟨by simp, fun _ => hs⟩

theorem maintains_read (f : σ → α) : Maintains I J (read f : Prog σ ε α) := by
  intro s hs
  rw [wp_read]
  exact ⟨by simp, fun _ => hs⟩

theorem maintains_ofExcept (x : Except ε α) : Maintains I J (ofExcept x : Prog σ ε α) := by
  cases x
  · exact maintains_throw _
  · exact maintains_pure _

theorem Maintains.ite {c : Prop} [Decidable c] {m m' : Prog σ ε α} (hm : Maintains I J m)
    (hm' : Maintains I J m') : Maintains I J (if c then m else m') := by
  split <;> assumption

theorem Maintains.handle {m : Prog σ ε α} {h : ε → Prog σ ε α} (hm : Maintains I J m)
    (hh : ∀ e, Maintains I J (h e)) : Maintains I J (handle m h) := by
  intro s hs
  rw [wp_handle]
  apply (hm s hs).mono
  intro o s' hover
  cases o with
  | ok a => exact hover
  | error e => exact hh e s' (hover.2 (by simp))
  | running => exact hover

/-- A loop each of whose turns keeps `I`. -/
theorem maintains_turns {I : σ → Prop} {turn : Prog σ ε Bool} (hturn : Maintains I I turn) (n : ℕ) :
    Maintains I I (turns turn n) := by
  induction n with
  | zero => exact fun _ hs => ⟨fun _ => hs, fun _ => hs⟩
  | succ n ih => exact hturn.bind fun _ => .ite ih (maintains_pure _)

/-- Calls one after the other; one that is not over is the last. -/
def session : List (Prog σ ε α) → σ → List (Outcome ε α) × σ
  | [], s => ([], s)
  | m :: ms, s => match m s with
    | (.running, s') => ([.running], s')
    | (o, s') => (o :: (session ms s').1, (session ms s').2)

theorem session_running {m : Prog σ ε α} {s : σ} (h : (m s).1 = .running) (ms : List (Prog σ ε α)) :
    (session (m :: ms) s).2 = (m s).2 := by
  unfold session
  revert h
  rcases m s with ⟨a | e | _, s'⟩ <;> simp

theorem session_over {m : Prog σ ε α} {s : σ} (h : (m s).1 ≠ .running) (ms : List (Prog σ ε α)) :
    (session (m :: ms) s).2 = (session ms (m s).2).2 := by
  rw [session]
  revert h
  rcases m s with ⟨a | e | _, s'⟩ <;> simp

theorem running_notMem_session_cons {m : Prog σ ε α} {ms : List (Prog σ ε α)} {s : σ} :
    .running ∉ (session (m :: ms) s).1 ↔ (m s).1 ≠ .running ∧ .running ∉ (session ms (m s).2).1 := by
  rw [session]
  rcases m s with ⟨a | e | _, s'⟩ <;> simp

theorem session_maintains {ms : List (Prog σ ε α)} (hms : ∀ m ∈ ms, Maintains I J m) {s : σ}
    (hs : I s) : (.running ∈ (session ms s).1 → J (session ms s).2) ∧
      (.running ∉ (session ms s).1 → I (session ms s).2) := by
  induction ms generalizing s with
  | nil => exact ⟨by simp [session], fun _ => hs⟩
  | cons m ms ih =>
    have hm := hms m (by simp) s hs
    have hrest := fun s' => @ih (fun m hm => hms m (by simp [hm])) s'
    unfold wp at hm
    unfold session
    revert hm
    rcases m s with ⟨a | e | _, s'⟩ <;> rintro ⟨hrun, hover⟩
    · simpa using hrest s' (hover (by simp))
    · simpa using hrest s' (hover (by simp))
    · exact ⟨fun _ => hrun rfl, by simp⟩

end Maintains

end Prog
end RethinkDB.Lib
