import RethinkDB.Net.Calls
import RethinkDB.Net.Resume
import RethinkDB.Net.Turn

/-! The blocking mode of the socket over runs of the driver: which reads give it back, and what the
next send finds. -/
namespace RethinkDB.Net
open RethinkDB.Lib

variable {V : Type} {P : Peer V}

namespace Transport

/-- In blocking mode, unless it is closed. -/
def Blocking (t : Transport P) : Prop := t.isOpen = true → t.timeout = none

/-- `recvall` takes the timeout off on its way out: it has something to ask for, and what comes first
is a chunk, a timeout or what closes the wrapper. -/
def Restores (t : Transport P) (length : ℕ) : Option ℤ → Prop
  | none => True
  | some deadline => t.isOpen = true → 0 < t.missing length ∧
      t.firstAnswer length (some deadline) ≠ some .wouldBlock ∧
      ∀ text, t.firstAnswer length (some deadline) ≠ some (.osError text)

/-- The loops under a timeout that their first answer will take off. -/
def Relieved (length : ℕ) (env : List (Event P.Act)) (res : Bytes) (t : Transport P) : Prop :=
  t.timeout = none ∨ res.length < length ∧
    answer (length - res.length) env t ≠ some .wouldBlock ∧
    ∀ text, answer (length - res.length) env t ≠ some (.osError text)

variable {length : ℕ} {env : List (Event P.Act)} {res res' : Bytes} {t t' : Transport P}

theorem Relieved.goes {e : Event P.Act} (h : Relieved length (e :: env) res t)
    (hturn : t.turn length res e = .goes res' t') : Relieved length env res' t' := by
  rcases turn_goes hturn with ⟨a, rfl, rfl, rfl⟩ | ⟨o, rfl, hr, rfl, rfl⟩ | ⟨o, chunk, rfl, hr, -, rfl, rfl⟩
  · exact h
  · unfold Relieved at h
    rwa [answer_skip hr] at h
  · exact Or.inl rfl

/-- A turn that ends the loops leaves the wrapper in blocking mode. -/
theorem Relieved.ends {e : Event P.Act} {ex : Exn V} (h : Relieved length (e :: env) res t)
    (hturn : t.turn length res e = .ends ex t') : Blocking t' := by
  obtain ⟨o, r, rfl, hr, hleft⟩ := turn_ends hturn
  intro hopen
  cases r with
  | data chunk =>
    obtain ⟨-, rfl⟩ := hleft
    cases hopen
  | timeout =>
    obtain rfl := hleft
    rfl
  | connReset | exception text =>
    obtain rfl := hleft
    cases hopen
  | eintr => exact hleft.elim
  | wouldBlock =>
    obtain rfl := hleft
    rcases h with h | ⟨-, hfirst, -⟩
    · exact h
    · exact absurd (answer_here hr (by simp)) hfirst
  | osError text =>
    obtain rfl := hleft
    rcases h with h | ⟨-, -, hfirst⟩
    · exact h
    · exact absurd (answer_here hr (by simp)) (hfirst text)

theorem recvLoop_blocking (h : Relieved length env res t) :
    Prog.wp (fun t => recvLoop length env res t) (fun o t' => o ≠ .running → Blocking t') t := by
  apply recvLoop_rule (I := Relieved length) (h := h)
  · intro env res t h hdone _ _
    rcases h with h | ⟨hmissing, -⟩
    · exact h
    · omega
  · intro res t _ _ hover
    exact absurd rfl hover
  · intro e env res t res' t' h _ hturn
    exact h.goes hturn
  · intro e env res t ex t' h _ hturn _
    have hblocking := h.ends hturn
    exact hblocking

theorem recvall_blocking {deadline : Option ℤ} (h : t.Restores length deadline)
    (hover : (recvall length deadline t).1 ≠ .running) : Blocking (recvall length deadline t).2 := by
  by_cases hopen : t.isOpen = true
  · rw [recvall_open deadline hopen] at hover ⊢
    refine recvLoop_blocking ?_ hover
    cases deadline with
    | none => exact Or.inl rfl
    | some deadline =>
      obtain ⟨hmissing, hfirst⟩ := h hopen
      right
      constructor
      · unfold missing at hmissing
        omega
      · exact hfirst
  · intro hopen'
    have hclosed : t.isOpen = false := by simpa using hopen
    have hsame := (recvall_closed length deadline hclosed).2
    rw [hsame] at hopen'
    exact absurd hopen' hopen

/-- The induction is on the schedule; `sendall` sets no timeout. -/
theorem sendLoop_blocking (sends : List SendOutcome) (data : Bytes) (h : Blocking t) :
    Blocking (sendLoop sends data t).2 := by
  induction sends generalizing data t with
  | nil => exact h
  | cons o sends ih =>
    unfold sendLoop
    split_ifs with hnil
    · exact h
    · cases o with
      | accept k => exact ih _ h
      | eintr => exact ih _ h
      | connReset | osError text | exception text | interrupt accepted text =>
        intro hopen
        cases hopen

/-- An answer that leaves the timeout where it is. -/
theorem recvLoop_poisoned (hopen : t.isOpen = true) (htime : t.timeout ≠ none)
    (h : answer (length - res.length) env t = some .wouldBlock ∨
      ∃ text, answer (length - res.length) env t = some (.osError text)) :
    Prog.wp (fun t => recvLoop length env res t) (fun _ t' => ¬Blocking t') t := by
  apply recvLoop_rule (I := fun env res t => t.isOpen = true ∧ t.timeout ≠ none ∧
    (answer (length - res.length) env t = some .wouldBlock ∨
      ∃ text, answer (length - res.length) env t = some (.osError text)))
  · intro env res t hI _ hblocking
    exact hI.2.1 (hblocking hI.1)
  · intro res t hI _ hblocking
    exact hI.2.1 (hblocking hI.1)
  · intro e env res t res' t' hI hless hturn
    rcases turn_goes hturn with ⟨a, rfl, rfl, rfl⟩ | ⟨o, rfl, hr, rfl, rfl⟩ |
      ⟨o, chunk, rfl, hr, -, rfl, rfl⟩
    · exact hI
    · rwa [answer_skip hr] at hI
    · rw [answer_here hr (by simp)] at hI
      simp at hI
  · intro e env res t ex t' hI hless hturn hblocking
    obtain ⟨o, r, rfl, hr, hleft⟩ := turn_ends hturn
    obtain ⟨hopen, htime, hfirst⟩ := hI
    cases r with
    | wouldBlock | osError text =>
      obtain rfl := hleft
      exact htime (hblocking hopen)
    | eintr => exact hleft
    | data chunk | timeout | connReset | exception text =>
      rw [answer_here hr (by simp)] at hfirst
      simp at hfirst
  · exact ⟨hopen, htime, h⟩

/-- Exactly these reads leave an open wrapper in blocking mode. -/
theorem recvall_blocking_iff {deadline : ℤ} (hopen : t.isOpen = true)
    (hover : (recvall length (some deadline) t).1 ≠ .running) :
    Blocking (recvall length (some deadline) t).2 ↔ t.Restores length (some deadline) := by
  constructor
  · intro hblocking _
    rw [recvall_open (some deadline) hopen] at hblocking
    have hopen' : (t.started (some deadline)).isOpen = true := hopen
    have htime : (t.started (some deadline)).timeout ≠ none := by
      simp [started, settimeout, remaining]
    by_cases hmissing : 0 < t.missing length
    · refine ⟨hmissing, ?_, ?_⟩
      · intro hfirst
        exact recvLoop_poisoned hopen' htime (Or.inl hfirst) hblocking
      · intro text hfirst
        exact recvLoop_poisoned hopen' htime (Or.inr ⟨text, hfirst⟩) hblocking
    · have hdone : length ≤ (t.readBuffer.getD []).length := by
        unfold missing at hmissing
        omega
      rw [recvLoop_done hdone] at hblocking
      exact absurd (hblocking hopen') htime
  · intro h
    exact recvall_blocking h hover

end Transport

namespace Wrapped
open Transport

/-- A read that will give the blocking mode back. -/
def Restores : Wrapped P → Prop
  | ⟨.recvall length deadline, t⟩ => t.Restores length deadline
  | _ => True

def SendsBlocking : Wrapped P → Prop
  | ⟨.sendall _, t⟩ => t.Blocking
  | _ => True

/-- Between calls the wrapper is in blocking mode, if its reads give it back. -/
theorem kept_blocking : Script.Kept (wrapper P) Blocking Restores SendsBlocking := by
  constructor
  · rintro ⟨call, t⟩ hblocking _
    cases call with
    | sendall data => exact hblocking
    | recvall length deadline | receive query | close | time => trivial
  · rintro ⟨call, t⟩ hblocking hrestores hover
    cases call with
    | recvall length deadline => exact recvall_blocking hrestores hover
    | sendall data =>
      change Blocking (sendall data t).2
      unfold sendall
      split_ifs
      · exact hblocking
      · exact sendLoop_blocking _ _ hblocking
      · exact hblocking
    | receive query => exact hblocking
    | close =>
      intro hopen
      cases hopen
    | time => exact hblocking

end Wrapped

namespace Driver

/-- The calls that a program's operations make of the wrapper. -/
def entered (ops : List (Op V)) (d : Driver P) : List (Wrapped P) :=
  Script.enteredIn (wrapper P) (ops.map Op.script) d

theorem sends_find_blocking {d : Driver P} (hd : d.io.timeout = none) (ops : List (Op V))
    (h : ∀ e ∈ entered ops d, e.Restores) : ∀ e ∈ entered ops d, e.SendsBlocking :=
  Script.enteredIn_rule Wrapped.kept_blocking _ (fun _ => hd) h

/-- A cursor that waits for its first batch, with these bytes of it there. -/
def pending (incoming : Bytes) (env : List (Event Empty)) : Driver (stream ℕ) where
  io :=
    { host := "localhost", port := 28015, isOpen := true, readBuffer := none, timeout := none
      incoming, peer := [], env, sends := [], sent := [], clock := fun n => n, ticks := 0 }
  numbering := ⟨fun _ => [], nil_length_lt, []⟩
  nextToken := 1
  jsonDecoder := fun _ => .ok ⟨.waitComplete, [], none, none, none⟩
  cursorCache := AList.insert 0 0 ∅
  headerInProgress := none
  closing := false
  cursors := [⟨plainQuery 0, [], 1, 1, none, fun _ => .ok ⟨.waitComplete, [], none, none, none⟩⟩]
  handed := []

/-- A poll that times out before any byte has come gives the blocking mode back. -/
theorem sends_find_blocking_timeout :
    (entered [.next 0 (.real 5), .run none (.ok []) none true]
      (pending [] [.recv .timeout])).Forall Wrapped.SendsBlocking := by
  apply List.forall_iff_forall_mem.mpr
  apply sends_find_blocking rfl
  apply List.forall_iff_forall_mem (p := Wrapped.Restores).mp
  refine And.intro trivial (And.intro (fun _ => ⟨by decide, by decide, ?_⟩) (And.intro trivial trivial))
  intro text h
  cases h

/-- `next(wait=False)` finds nothing, and the next query is sent on a socket that does not block. -/
theorem poll_poisons_send :
    ¬∀ (d : Driver (stream ℕ)) (ops : List (Op ℕ)), d.io.timeout = none →
      ∀ e ∈ entered ops d, e.SendsBlocking := by
  intro h
  have hsend := h (pending [] [.recv .wouldBlock]) [.next 0 (.bool false), .run none (.ok []) none true] rfl
  have hlast := hsend _ (List.mem_iff_getElem?.mpr ⟨2, rfl⟩)
  exact absurd (hlast rfl) (by decide)

end Driver
end RethinkDB.Net
