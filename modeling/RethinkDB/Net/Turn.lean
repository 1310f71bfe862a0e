import RethinkDB.Net.Socket

/-! The loops of `recvall`, one event of the schedule at a time. -/
namespace RethinkDB.Net
open RethinkDB.Lib

variable {V : Type} {P : Peer V}

namespace Transport

/-- What an event makes of the loops: they go on, or `recvall` raises. -/
inductive Turn (P : Peer V) where
  | goes (res : Bytes) (t : Transport P)
  | ends (e : Exn V) (t : Transport P)

/-- What `recv` has returned is dealt with. -/
def take (t : Transport P) (res chunk : Bytes) : Turn P :=
  let t := { t with incoming := t.incoming.drop chunk.length }.settimeout none
  if chunk = [] then .ends (.driver "Connection is closed.") t.close else .goes (res ++ chunk) t

/-- An event that comes while bytes are missing. -/
def turn (length : ℕ) (res : Bytes) (t : Transport P) : Event P.Act → Turn P
  | .peer a => .goes res (t.peerAct a)
  | .recv o => match t.recv (length - res.length) o with
    | none | some .eintr => .goes res t
    | some (.data chunk) => t.take res chunk
    | some .timeout =>
      .ends (.timeout t.host t.port) ({ t with readBuffer := some res }.settimeout none)
    | some .connReset => .ends (.driver "Connection is closed.") t.close
    | some .wouldBlock => .ends (.timeout t.host t.port) t
    | some (.osError text) =>
      .ends (.driver s!"Connection interrupted receiving from {t.host}:{t.port} - {text}") t
    | some (.exception text) =>
      .ends (.driver s!"Error receiving from {t.host}:{t.port} - {text}") t.close

variable {length : ℕ} {env : List (Event P.Act)} {res : Bytes} {t : Transport P}

theorem recvLoop_done (h : length ≤ res.length) :
    recvLoop length env res t = (.ok res, { t with env }) := by
  cases env with
  | nil => simp only [recvLoop, if_pos h]
  | cons e env => simp only [recvLoop, if_pos h]

theorem recvLoop_nil (h : res.length < length) :
    recvLoop length [] res t = (.running, { t with env := [] }) := by
  have h' : ¬ length ≤ res.length := by omega
  simp only [recvLoop, if_neg h']

theorem recvLoop_cons (h : res.length < length) (e : Event P.Act) :
    recvLoop length (e :: env) res t = match t.turn length res e with
      | .goes res' t' => recvLoop length env res' t'
      | .ends e t' => (.error e, { t' with env }) := by
  have h' : ¬ length ≤ res.length := by omega
  cases e with
  | peer a => simp only [recvLoop, if_neg h', turn]
  | recv o =>
    simp only [recvLoop, if_neg h', turn]
    cases t.recv (length - res.length) o with
    | none => rfl
    | some received =>
      cases received with
      | data chunk =>
        dsimp only [take]
        split_ifs <;> rfl
      | timeout | wouldBlock | eintr | connReset | osError text | exception text => rfl

/-- The rule of the loops: what each event preserves while bytes are missing. -/
theorem recvLoop_rule {I : List (Event P.Act) → Bytes → Transport P → Prop}
    {Q : Outcome (Exn V) Bytes → Transport P → Prop}
    (hdone : ∀ env res t, I env res t → length ≤ res.length → Q (.ok res) { t with env })
    (hblocked : ∀ res t, I [] res t → res.length < length → Q .running { t with env := [] })
    (hgoes : ∀ e env res t res' t', I (e :: env) res t → res.length < length →
      t.turn length res e = .goes res' t' → I env res' t')
    (hends : ∀ e env res t ex t', I (e :: env) res t → res.length < length →
      t.turn length res e = .ends ex t' → Q (.error ex) { t' with env })
    (h : I env res t) : Prog.wp (fun t => recvLoop length env res t) Q t := by
  change Q (recvLoop length env res t).1 (recvLoop length env res t).2
  induction env generalizing res t with
  | nil =>
    by_cases hlength : length ≤ res.length
    · rw [recvLoop_done hlength]
      exact hdone [] res t h hlength
    · rw [recvLoop_nil (by omega)]
      exact hblocked res t h (by omega)
  | cons e env ih =>
    by_cases hlength : length ≤ res.length
    · rw [recvLoop_done hlength]
      exact hdone (e :: env) res t h hlength
    · have hmissing : res.length < length := by omega
      rw [recvLoop_cons hmissing]
      cases hturn : t.turn length res e with
      | goes res' t' => exact ih (hgoes e env res t res' t' h hmissing hturn)
      | ends ex t' => exact hends e env res t ex t' h hmissing hturn

def delivered (t : Transport P) (chunk : Bytes) : Transport P :=
  { t with incoming := t.incoming.drop chunk.length, timeout := none }

/-- The three ways the loops go on. -/
theorem turn_goes {e : Event P.Act} {res' : Bytes} {t' : Transport P}
    (h : t.turn length res e = .goes res' t') :
    (∃ a, e = .peer a ∧ res' = res ∧ t' = t.peerAct a) ∨
    (∃ o, e = .recv o ∧ (t.recv (length - res.length) o = none ∨
      t.recv (length - res.length) o = some .eintr) ∧ res' = res ∧ t' = t) ∨
    ∃ o chunk, e = .recv o ∧ t.recv (length - res.length) o = some (.data chunk) ∧ chunk ≠ [] ∧
      res' = res ++ chunk ∧ t' = t.delivered chunk := by
  cases e with
  | peer a =>
    cases h
    exact Or.inl ⟨a, rfl, rfl, rfl⟩
  | recv o =>
    unfold turn at h
    right
    cases hr : t.recv (length - res.length) o with
    | none =>
      simp only [hr] at h
      cases h
      exact Or.inl ⟨o, rfl, Or.inl hr, rfl, rfl⟩
    | some r =>
      cases r with
      | data chunk =>
        simp only [hr, take] at h
        split_ifs at h with hnil
        cases h
        exact Or.inr ⟨o, chunk, rfl, hr, hnil, rfl, rfl⟩
      | eintr =>
        simp only [hr] at h
        cases h
        exact Or.inl ⟨o, rfl, Or.inr hr, rfl, rfl⟩
      | timeout | wouldBlock | connReset | osError text | exception text =>
        simp only [hr] at h
        cases h

/-- What is left of the wrapper when an answer ends the loops. -/
def Left (res : Bytes) (t t' : Transport P) : Received → Prop
  | .data chunk => chunk = [] ∧ t' = (t.delivered chunk).close
  | .timeout => t' = { t with readBuffer := some res, timeout := none }
  | .connReset | .exception _ => t' = t.close
  | .wouldBlock | .osError _ => t' = t
  | .eintr => False

theorem turn_ends {e : Event P.Act} {ex : Exn V} {t' : Transport P}
    (h : t.turn length res e = .ends ex t') :
    ∃ o r, e = .recv o ∧ t.recv (length - res.length) o = some r ∧ Left res t t' r := by
  cases e with
  | peer a => cases h
  | recv o =>
    unfold turn at h
    cases hr : t.recv (length - res.length) o with
    | none =>
      simp only [hr] at h
      cases h
    | some r =>
      refine ⟨o, r, rfl, hr, ?_⟩
      cases r with
      | data chunk =>
        simp only [hr, take] at h
        split_ifs at h with hnil
        cases h
        exact ⟨hnil, rfl⟩
      | eintr =>
        simp only [hr] at h
        cases h
      | timeout | wouldBlock | connReset | osError text | exception text =>
        simp only [hr] at h
        cases h
        rfl

/-! ### The first answer -/

/-- What the first `recv` of `n` bytes to come back brings, `EINTR` aside. -/
def answer (n : ℕ) : List (Event P.Act) → Transport P → Option Received
  | [], _ => none
  | .peer a :: env, t => answer n env (t.peerAct a)
  | .recv o :: env, t => match t.recv n o with
    | none | some .eintr => answer n env t
    | some r => some r

theorem answer_skip {n : ℕ} {o : RecvOutcome} (h : t.recv n o = none ∨ t.recv n o = some .eintr) :
    answer n (.recv o :: env) t = answer n env t := by
  rcases h with h | h <;> simp only [answer, h]

theorem answer_here {n : ℕ} {o : RecvOutcome} {r : Received} (h : t.recv n o = some r)
    (hr : r ≠ .eintr) : answer n (.recv o :: env) t = some r := by
  cases r with
  | eintr => exact absurd rfl hr
  | _ => simp only [answer, h]

/-- `recvall` when it first calls `recv`. -/
def started (t : Transport P) (deadline : Option ℤ) : Transport P :=
  (t.remaining deadline).2.settimeout (t.remaining deadline).1

def missing (t : Transport P) (length : ℕ) : ℕ := length - (t.readBuffer.getD []).length

def firstAnswer (t : Transport P) (length : ℕ) (deadline : Option ℤ) : Option Received :=
  answer (t.missing length) t.env (t.started deadline)

theorem recvall_open (deadline : Option ℤ) (h : t.isOpen = true) :
    recvall length deadline t = recvLoop length t.env (t.readBuffer.getD []) (t.started deadline) :=
  if_pos h

end Transport
end RethinkDB.Net
