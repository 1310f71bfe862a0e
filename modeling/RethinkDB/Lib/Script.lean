import RethinkDB.Lib.Prog

/-! Programs that reach one part of their state by calls only, written down so that the calls a
run enters can be listed, and the rule for what holds whenever a call is entered. -/
namespace RethinkDB.Lib

/-- A program over `σ`, with the calls `C` for the part of the state it does not touch itself. -/
inductive Script (C : Type → Type) (σ ε : Type) : Type → Type 1 where
  | own {α : Type} (m : Prog σ ε α) : Script C σ ε α
  | call {α : Type} (c : C α) : Script C σ ε α
  | bind {α β : Type} (m : Script C σ ε α) (f : α → Script C σ ε β) : Script C σ ε β

/-- The part of the state that is reached by calls, and what the calls do to it. -/
structure Part (C : Type → Type) (σ τ ε : Type) where
  get : σ → τ
  set : τ → σ → σ
  get_set : ∀ t s, get (set t s) = t
  perform {α : Type} : C α → Prog τ ε α

/-- A call and the state it finds. -/
structure Entry (C : Type → Type) (τ : Type) : Type 1 where
  {result : Type}
  call : C result
  state : τ

namespace Script
variable {C : Type → Type} {σ τ ε α β : Type}

instance : Monad (Script C σ ε) where
  pure a := .own (pure a)
  bind := .bind

variable (p : Part C σ τ ε)

def run {α : Type} : Script C σ ε α → Prog σ ε α
  | .own m => fun s => ((m s).1, p.set (p.get s) (m s).2)
  | .call c => Prog.zoom p.get p.set (p.perform c)
  | .bind m f => m.run >>= fun a => (f a).run

/-- The calls of a run, in the order they are entered. -/
def entered {α : Type} : Script C σ ε α → σ → List (Entry C τ)
  | .own _, _ => []
  | .call c, s => [⟨c, p.get s⟩]
  | .bind m f, s => m.entered s ++ match m.run p s with
    | (.ok a, s') => (f a).entered s'
    | (_, _) => []

/-- The calls of a session: a run that is not over is the last. -/
def enteredIn : List (Script C σ ε α) → σ → List (Entry C τ)
  | [], _ => []
  | m :: ms, s => m.entered p s ++ match m.run p s with
    | (.running, _) => []
    | (_, s') => enteredIn ms s'

variable {p} in
theorem entered_bind_of_ok {m : Script C σ ε α} {s s' : σ} {a : α} (h : m.run p s = (.ok a, s'))
    (f : α → Script C σ ε β) :
    (m >>= f).entered p s = m.entered p s ++ (f a).entered p s' := by
  change (m.bind f).entered p s = _
  simp only [entered, h]

@[simp] theorem run_bind (m : Script C σ ε α) (f : α → Script C σ ε β) :
    (m >>= f).run p = m.run p >>= fun a => (f a).run p := rfl

@[simp] theorem run_call (c : C α) :
    (Script.call c : Script C σ ε α).run p = Prog.zoom p.get p.set (p.perform c) := rfl

/-- A program that leaves the part alone is run as it is. -/
theorem run_own {m : Prog σ ε α} (h : ∀ s, p.set (p.get s) (m s).2 = (m s).2) :
    (Script.own m : Script C σ ε α).run p = m := by
  funext s
  exact Prod.ext rfl (h s)

/-- The only calls that a script has, whatever they return, are calls with `Q`. -/
def Only (Q : ∀ {α : Type}, C α → Prop) {α : Type} : Script C σ ε α → Prop
  | .own _ => True
  | .call c => Q c
  | .bind m f => m.Only Q ∧ ∀ a, (f a).Only Q

section Only
variable {Q : ∀ {α : Type}, C α → Prop}

@[simp] theorem only_own (m : Prog σ ε α) : (own m : Script C σ ε α).Only Q := trivial

@[simp] theorem only_pure (a : α) : (pure a : Script C σ ε α).Only Q := trivial

@[simp] theorem only_call (c : C α) : (call c : Script C σ ε α).Only Q ↔ Q c := Iff.rfl

@[simp] theorem only_bind (m : Script C σ ε α) (f : α → Script C σ ε β) :
    (m >>= f).Only Q ↔ m.Only Q ∧ ∀ a, (f a).Only Q := Iff.rfl

theorem Only.ite {c : Prop} [Decidable c] {m m' : Script C σ ε α} (hm : m.Only Q)
    (hm' : m'.Only Q) : (if c then m else m').Only Q := by
  split <;> assumption

/-- The induction is on the script. -/
theorem Only.entered {m : Script C σ ε α} (h : m.Only Q) (s : σ) :
    ∀ e ∈ m.entered p s, Q e.call := by
  induction m generalizing s with
  | own m => simp [Script.entered]
  | call c =>
    intro e he
    rw [Script.entered, List.mem_singleton] at he
    rw [he]
    exact h
  | bind m f ihm ihf =>
    intro e he
    rw [Script.entered] at he
    rcases List.mem_append.mp he with he | he
    · exact ihm h.1 s e he
    rcases hm : m.run p s with ⟨a | x | _, s'⟩
    all_goals rw [hm] at he
    · exact ihf a (h.2 a) s' e he
    · simp at he
    · simp at he

end Only

/-- `I` holds of the part between the calls. -/
structure Kept (I : τ → Prop) (pre post : Entry C τ → Prop) : Prop where
  enter : ∀ e, I e.state → pre e → post e
  leave : ∀ e, I e.state → pre e → (p.perform e.call e.state).1 ≠ .running →
    I (p.perform e.call e.state).2

variable {p} {I : τ → Prop} {pre post : Entry C τ → Prop}

/-- The induction is on the script: each half of a sequence is one of the cases before it. -/
theorem entered_rule (hkept : Kept p I pre post) (m : Script C σ ε α) {s : σ} (hs : I (p.get s))
    (hpre : ∀ e ∈ m.entered p s, pre e) :
    (∀ e ∈ m.entered p s, post e) ∧ ((m.run p s).1 ≠ .running → I (p.get (m.run p s).2)) := by
  induction m generalizing s with
  | own m =>
    constructor
    · simp [entered]
    · intro _
      rw [run, p.get_set]
      exact hs
  | call c =>
    have henter := hpre ⟨c, p.get s⟩ (by simp [entered])
    constructor
    · intro e he
      rw [entered, List.mem_singleton] at he
      rw [he]
      exact hkept.enter _ hs henter
    · intro hover
      change I (p.get (p.set (p.perform c (p.get s)).2 s))
      rw [p.get_set]
      exact hkept.leave _ hs henter hover
  | bind m f ihm ihf =>
    have hrun : (m.bind f).run p s = Prog.after (fun a => (f a).run p) (m.run p s) := rfl
    rw [hrun]
    rw [entered] at hpre ⊢
    obtain ⟨hpost, hover⟩ := ihm hs fun e he => hpre e (List.mem_append_left _ he)
    rcases hm : m.run p s with ⟨a | e | _, s'⟩
    · rw [hm] at hover hpre
      obtain ⟨hpost', hover'⟩ := ihf a (hover (by simp)) fun e he => hpre e (List.mem_append_right _ he)
      constructor
      · intro e he
        rcases List.mem_append.mp he with he | he
        · exact hpost e he
        · exact hpost' e he
      · exact hover'
    · rw [hm] at hover
      constructor
      · simpa using hpost
      · intro _
        exact hover (by simp)
    · constructor
      · simpa using hpost
      · simp [Prog.after]

/-- The induction is on the runs of the session. -/
theorem enteredIn_rule (hkept : Kept p I pre post) (ms : List (Script C σ ε α)) {s : σ}
    (hs : I (p.get s)) (hpre : ∀ e ∈ enteredIn p ms s, pre e) :
    ∀ e ∈ enteredIn p ms s, post e := by
  induction ms generalizing s with
  | nil => simp [enteredIn]
  | cons m ms ih =>
    rw [enteredIn] at hpre ⊢
    obtain ⟨hpost, hover⟩ := entered_rule hkept m hs fun e he => hpre e (List.mem_append_left _ he)
    intro e he
    rcases List.mem_append.mp he with he | he
    · exact hpost e he
    rcases hm : m.run p s with ⟨a | x | _, s'⟩
    all_goals rw [hm] at he hover hpre
    · exact ih (hover (by simp)) (fun e he => hpre e (List.mem_append_right _ he)) e he
    · exact ih (hover (by simp)) (fun e he => hpre e (List.mem_append_right _ he)) e he
    · simp at he

end Script
end RethinkDB.Lib
