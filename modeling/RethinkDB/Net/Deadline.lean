import RethinkDB.Net.Poll

/-! The timeout of the socket at every `recv` of a read with a deadline. Time passes while the socket is
waited for, and only then: `pace` says how long each event of the schedule is in coming. -/
namespace RethinkDB.Net
open RethinkDB.Lib

variable {V : Type} {P : Peer V}

/-- One `recv` of a `recvall`: the timeout of the socket, and the time since the clock was read. -/
structure Issue where
  timeout : Option ℤ
  elapsed : ℕ
  deriving Repr, DecidableEq

/-- The timeout is finite and no larger than what is left until the deadline. -/
def Issue.Bounded (deadline now : ℤ) (i : Issue) : Prop :=
  ∃ s, i.timeout = some s ∧ s ≤ max 0 (deadline - (now + i.elapsed))

namespace Transport

/-- Whether `recv` comes back with the event. -/
def answers (t : Transport P) (n : ℕ) : Event P.Act → Bool
  | .peer _ => false
  | .recv o => (t.recv n o).isSome

/-- The `recv`s that the loops issue after one that is waiting. -/
def later (length : ℕ) (pace : ℕ → ℕ) :
    List (Event P.Act) → ℕ → Bytes → Transport P → List Issue
  | [], _, _, _ => []
  | e :: env, elapsed, res, t => match t.turn length res e with
    | .ends _ _ => []
    | .goes res' t' =>
      if length ≤ res'.length then []
      else if t.answers (length - res.length) e then
        ⟨t'.timeout, elapsed + pace env.length⟩ ::
          later length pace env (elapsed + pace env.length) res' t'
      else later length pace env (elapsed + pace env.length) res' t'

def issues (pace : ℕ → ℕ) (t : Transport P) (length : ℕ) (deadline : Option ℤ) : List Issue :=
  if t.isOpen = true ∧ 0 < t.missing length then
    ⟨(t.started deadline).timeout, 0⟩ ::
      later length pace t.env 0 (t.readBuffer.getD []) (t.started deadline)
  else []

/-- No `EINTR` comes before the first answer once time has passed. -/
def Undisturbed (n : ℕ) (pace : ℕ → ℕ) : List (Event P.Act) → ℕ → Transport P → Prop
  | [], _, _ => True
  | .peer a :: env, elapsed, t => Undisturbed n pace env (elapsed + pace env.length) (t.peerAct a)
  | .recv o :: env, elapsed, t => match t.recv n o with
    | none => Undisturbed n pace env (elapsed + pace env.length) t
    | some .eintr => elapsed + pace env.length = 0 ∧
        Undisturbed n pace env (elapsed + pace env.length) t
    | some _ => True

/-- A chunk with all the bytes asked for, or no chunk at all. -/
def Whole (n : ℕ) (answer : Option Received) : Prop :=
  ∀ chunk, answer = some (.data chunk) → chunk = [] ∨ n ≤ chunk.length

/-- The read is over with its first chunk, and is not made to call `recv` again before. -/
def InTime (pace : ℕ → ℕ) (deadline : ℤ) (t : Transport P) (length : ℕ) : Prop :=
  t.isOpen = true → 0 < t.missing length →
    Whole (t.missing length) (t.firstAnswer length (some deadline)) ∧
    (deadline ≤ t.now.1 ∨ Undisturbed (t.missing length) pace t.env 0 (t.started (some deadline)))

variable {length : ℕ} {pace : ℕ → ℕ} {env : List (Event P.Act)} {res : Bytes} {t : Transport P}

theorem bounded_some {deadline now : ℤ} {elapsed : ℕ} :
    (⟨some (max 0 (deadline - now)), elapsed⟩ : Issue).Bounded deadline now ↔
      deadline ≤ now ∨ elapsed = 0 := by
  constructor
  · rintro ⟨s, hs, hle⟩
    cases hs
    dsimp only at hle
    omega
  · intro h
    refine ⟨_, rfl, ?_⟩
    dsimp only
    omega

variable (pace env) in
/-- The induction is on the schedule; nothing has been received yet. -/
theorem later_bounded_iff {deadline now : ℤ} (htime : t.timeout = some (max 0 (deadline - now)))
    (hmissing : res.length < length) (elapsed : ℕ) :
    (∀ i ∈ later length pace env elapsed res t, i.Bounded deadline now) ↔
      Whole (length - res.length) (answer (length - res.length) env t) ∧
      (deadline ≤ now ∨ Undisturbed (length - res.length) pace env elapsed t) := by
  have hless : ¬length ≤ res.length := by omega
  induction env generalizing t elapsed with
  | nil => simp [later, Whole, answer, Undisturbed]
  | cons e env ih =>
    cases e with
    | peer a =>
      simp only [later, turn, if_neg hless, answers, Bool.false_eq_true, if_false, answer, Undisturbed]
      exact ih (t := t.peerAct a) htime _
    | recv o =>
      cases hr : t.recv (length - res.length) o with
      | none =>
        simp only [later, turn, hr, if_neg hless, answers, Option.isSome_none, Bool.false_eq_true,
          if_false, answer, Undisturbed]
        exact ih htime _
      | some r =>
        cases r with
        | eintr =>
          have hrest := ih htime (elapsed + pace env.length)
          simp only [later, turn, hr, if_neg hless, answers, Option.isSome_some, if_true, answer,
            Undisturbed, List.forall_mem_cons, htime, bounded_some, hrest]
          tauto
        | data chunk =>
          have hlength : (res ++ chunk).length = res.length + chunk.length := List.length_append
          have hwhole : Whole (length - res.length) (some (.data chunk)) ↔
              chunk = [] ∨ length - res.length ≤ chunk.length := by
            simp [Whole]
          simp only [later, turn, hr, take, answer, Undisturbed, or_true, and_true, hwhole]
          by_cases hnil : chunk = []
          · simp [hnil]
          · simp only [hnil, if_false, false_or]
            by_cases hall : length - res.length ≤ chunk.length
            · have hdone : length ≤ (res ++ chunk).length := by omega
              simp only [if_pos hdone, hall]
              simp
            · have hdone : ¬length ≤ (res ++ chunk).length := by omega
              simp only [if_neg hdone]
              simp [answers, hr, hall, Issue.Bounded, settimeout]
        | timeout | wouldBlock | connReset | osError text | exception text =>
          simp [later, turn, hr, answer, Undisturbed, Whole]

/-- For a read on an open wrapper that has something to ask for. -/
theorem issues_bounded_iff (pace : ℕ → ℕ) (t : Transport P) (length : ℕ) (deadline : ℤ) :
    (∀ i ∈ t.issues pace length (some deadline), i.Bounded deadline t.now.1) ↔
      t.InTime pace deadline length := by
  unfold issues InTime
  split_ifs with h
  · obtain ⟨hopen, hmissing⟩ := h
    have htime : (t.started (some deadline)).timeout = some (max 0 (deadline - t.now.1)) := rfl
    have hmissing' : (t.readBuffer.getD []).length < length := by
      unfold missing at hmissing
      omega
    have hlater := later_bounded_iff pace t.env htime hmissing' 0
    simp only [List.forall_mem_cons, htime, bounded_some, or_true, true_and, hlater, hopen, hmissing,
      forall_const]
    rfl
  · constructor
    · intro _ hopen hmissing
      exact absurd ⟨hopen, hmissing⟩ h
    · simp

end Transport

namespace Wrapped
open Transport

def issues (pace : ℕ → ℕ) : Wrapped P → List Issue
  | ⟨.recvall length deadline, t⟩ => t.issues pace length deadline
  | _ => []

def InTime (pace : ℕ → ℕ) (deadline : ℤ) : Wrapped P → Prop
  | ⟨.recvall length _, t⟩ => t.InTime pace deadline length
  | _ => True

end Wrapped

def SocketCall.ReadsBy (deadline : Option ℤ) {α : Type} : SocketCall V α → Prop
  | .recvall _ deadline' => deadline' = deadline
  | _ => True

theorem Wrapped.issues_bounded_iff (pace : ℕ → ℕ) {deadline : ℤ} {e : Wrapped P}
    (h : e.call.ReadsBy (some deadline)) :
    (∀ i ∈ e.issues pace, i.Bounded deadline e.state.now.1) ↔ e.InTime pace deadline := by
  rcases e with ⟨call, t⟩
  cases call with
  | recvall length deadline' =>
    obtain rfl : deadline' = some deadline := h
    exact Transport.issues_bounded_iff pace t length deadline
  | sendall data | receive query | close | time => simp [issues, InTime]

namespace Script
variable {deadline : Option ℤ}

theorem forEach_reads {β : Type} {f : β → Scripted P Unit}
    (hf : ∀ b, (f b).Only (SocketCall.ReadsBy deadline)) (bs : List β) :
    (forEach f bs).Only (SocketCall.ReadsBy deadline) := by
  induction bs with
  | nil => trivial
  | cons b bs ih => exact ⟨hf b, fun _ => ih⟩

theorem sendQuery_reads (query : Query V) :
    (sendQuery query : Scripted P Unit).Only (SocketCall.ReadsBy deadline) := by
  simp [sendQuery, SocketCall.ReadsBy]

theorem cursorRequest_reads (type : QueryType) (id : ℕ) :
    (cursorRequest type id : Scripted P Unit).Only (SocketCall.ReadsBy deadline) := by
  simp [cursorRequest, sendQuery_reads]

theorem maybeFetchBatch_reads (id : ℕ) :
    (maybeFetchBatch id : Scripted P Unit).Only (SocketCall.ReadsBy deadline) := by
  refine ⟨trivial, fun c => Lib.Script.Only.ite ?_ trivial⟩
  exact ⟨trivial, fun _ => cursorRequest_reads .cont id⟩

theorem extend_reads (id : ℕ) (resBuf : Bytes) :
    (extend id resBuf : Scripted P Unit).Only (SocketCall.ReadsBy deadline) := by
  simp [extend, maybeFetchBatch_reads]

theorem cursorError_reads (message : String) (id : ℕ) :
    (cursorError message id : Scripted P Unit).Only (SocketCall.ReadsBy deadline) := by
  refine ⟨trivial, fun c => Lib.Script.Only.ite ?_ trivial⟩
  exact ⟨trivial, fun _ => ⟨trivial, fun dummy => extend_reads id dummy⟩⟩

theorem close_reads : (close : Scripted P Unit).Only (SocketCall.ReadsBy deadline) := by
  simp [close, forEach_reads (cursorError_reads _), SocketCall.ReadsBy]

theorem readHeader_reads :
    (readHeader deadline : Scripted P (ℤ × ℕ)).Only (SocketCall.ReadsBy deadline) := by
  refine ⟨trivial, fun header => ?_⟩
  cases header with
  | some header => trivial
  | none => exact ⟨rfl, fun _ => ⟨trivial, fun _ => trivial⟩⟩

theorem readFrame_reads :
    (readFrame deadline : Scripted P (ℤ × Bytes)).Only (SocketCall.ReadsBy deadline) :=
  ⟨readHeader_reads, fun _ => ⟨rfl, fun _ => ⟨trivial, fun _ => trivial⟩⟩⟩

/-- The induction is on the bound. -/
theorem readLoop_reads (query : Query V) (n : ℕ) :
    (readLoop query deadline n : Scripted P (Option (Response V))).Only
      (SocketCall.ReadsBy deadline) := by
  induction n with
  | zero => trivial
  | succ n ih =>
    refine ⟨readFrame_reads, fun frame => ⟨trivial, fun cached => ?_⟩⟩
    cases cached with
    | some id =>
      exact ⟨trivial, fun _ => ⟨extend_reads id frame.2, fun _ => Lib.Script.Only.ite trivial ih⟩⟩
    | none =>
      apply Lib.Script.Only.ite
      · exact ⟨trivial, fun _ => ⟨trivial, fun _ => ⟨trivial, fun _ => trivial⟩⟩⟩
      · refine ⟨trivial, fun _ => ⟨trivial, fun closing => Lib.Script.Only.ite ih ?_⟩⟩
        exact ⟨close_reads, fun _ => trivial⟩

/-- The induction is on the bound. -/
theorem nextLoop_reads (id n : ℕ) :
    (nextLoop id deadline n : Scripted P V).Only (SocketCall.ReadsBy deadline) := by
  induction n with
  | zero => trivial
  | succ n ih =>
    refine ⟨trivial, fun c => ?_⟩
    dsimp only
    cases c.items with
    | cons v vs => exact ⟨trivial, fun _ => trivial⟩
    | nil =>
      refine ⟨maybeFetchBatch_reads id, fun _ => ⟨trivial, fun c' => ?_⟩⟩
      dsimp only
      cases c'.error with
      | some e => trivial
      | none => exact ⟨⟨trivial, fun _ => readLoop_reads c.query _⟩, fun _ => ih⟩

/-- All reads of `next` are given one deadline: what the clock said at first, and the wait. -/
theorem next_reads {d : Driver P} {wait : Driver.Wait} {timeout : ℤ}
    (hwait : Driver.waitToTimeout wait = (.ok (some timeout) : Except (Exn V) (Option ℤ))) (id : ℕ) :
    ∀ e ∈ (next id wait).entered (wrapper P) d,
      e.call.ReadsBy (some (d.io.now.1 + timeout)) := by
  have htimeout : (.own (Prog.ofExcept (Driver.waitToTimeout wait)) : Scripted P (Option ℤ)).run
      (wrapper P) d = (.ok (some timeout), d) := by
    rw [(Driver.own_ofExcept _).run, hwait]
    rfl
  have htime : (.call .time : Scripted P ℤ).run (wrapper P) d =
      (.ok d.io.now.1, { d with io := d.io.now.2 }) := rfl
  intro e he
  rw [next, Lib.Script.entered_bind_of_ok htimeout, getNext, Lib.Script.entered_bind_of_ok htime] at he
  rcases List.mem_append.mp he with he | he
  · simp [Lib.Script.entered] at he
  rcases List.mem_append.mp he with he | he
  · rw [Lib.Script.entered, List.mem_singleton] at he
    rw [he]
    trivial
  · refine Lib.Script.Only.entered (wrapper P) ?_ _ e he
    exact ⟨trivial, fun bound => nextLoop_reads id bound⟩

end Script

namespace Driver

def enteredNext (id : ℕ) (wait : Wait) (d : Driver P) : List (Wrapped P) :=
  (Script.next id wait).entered (wrapper P) d

/-- Every `recv` of a `next` with a deadline is bounded by what is left, exactly when each of its reads is
over with one chunk and undisturbed. -/
theorem next_bounded_iff (pace : ℕ → ℕ) {d : Driver P} {wait : Wait} {timeout : ℤ}
    (hwait : waitToTimeout wait = (.ok (some timeout) : Except (Exn V) (Option ℤ))) (id : ℕ) :
    (∀ e ∈ enteredNext id wait d, ∀ i ∈ e.issues pace,
      i.Bounded (d.io.now.1 + timeout) e.state.now.1) ↔
      ∀ e ∈ enteredNext id wait d,
        e.InTime pace (d.io.now.1 + timeout) := by
  apply forall₂_congr
  intro e he
  exact Wrapped.issues_bounded_iff pace (Script.next_reads hwait id e he)

/-- The two sides of it for a wait of five ticks. -/
theorem next_bounded_five :
    (∀ e ∈ enteredNext 0 (.real 5) (pending [] [.recv .eintr]),
      ∀ i ∈ e.issues fun _ => 1, i.Bounded 5 e.state.now.1) ↔
      ∀ e ∈ enteredNext 0 (.real 5) (pending [] [.recv .eintr]),
        e.InTime (fun _ => 1) 5 :=
  @next_bounded_iff _ _ (fun _ => 1) _ (.real 5) 5 rfl 0

/-- A header in two chunks: the second `recv` waits without a timeout. -/
theorem next_unbounded :
    ¬∀ (pace : ℕ → ℕ) (d : Driver (stream ℕ)) (wait : Wait) (timeout : ℤ) (id : ℕ),
      waitToTimeout wait = (.ok (some timeout) : Except (Exn ℕ) (Option ℤ)) →
      ∀ e ∈ enteredNext id wait d, ∀ i ∈ e.issues pace,
        i.Bounded (d.io.now.1 + timeout) e.state.now.1 := by
  intro h
  have hread := h (fun _ => 1) (pending [0, 0, 0, 0] [.recv (.chunk 3)]) (.real 5) 5 0 rfl
  have hsecond := hread _ (List.mem_iff_getElem?.mpr ⟨1, rfl⟩) _ (List.mem_iff_getElem?.mpr ⟨1, rfl⟩)
  obtain ⟨s, hs, -⟩ := hsecond
  cases hs

end Driver
end RethinkDB.Net
