import RethinkDB.Lib.Prog
import RethinkDB.Net.Protocol

/-! `_read_exactly` of the Trio connection, over a stream that comes in pieces and ends. -/
namespace RethinkDB.Async.Trio
open RethinkDB.Lib Net Prog

inductive StreamExn where
  /-- `BrokenResourceError` and `ClosedResourceError`. -/
  | resource
  | type | struct
  deriving Repr, DecidableEq

/-- What a call of `receive_some` does: it returns at least one byte while there is one, and at most
so many, or it raises. -/
inductive Receive where
  | chunk (size : ℕ)
  | broken
  deriving Repr, DecidableEq

/-- The connection as its reader sees it: the bytes that come before the end of the stream, and what
each call of `receive_some` does. -/
structure Stream where
  incoming : Bytes
  receive : ℕ → Receive
  calls : ℕ
  closing : Bool
  closed : Bool

namespace Stream

def isOpen (s : Stream) : Bool := !(s.closing || s.closed)

def received (n : ℕ) (s : Stream) : Stream :=
  { s with incoming := s.incoming.drop n, calls := s.calls + 1 }

/-- Some call to come raises. -/
def Breaks (s : Stream) : Prop := ∃ k, s.receive (s.calls + k) = .broken

theorem Breaks.of_received {s : Stream} {n : ℕ} (h : (s.received n).Breaks) : s.Breaks := by
  obtain ⟨k, hk⟩ := h
  refine ⟨k + 1, ?_⟩
  rw [← hk, Nat.add_comm k 1, ← Nat.add_assoc]
  rfl

end Stream

/-- At the end of the stream there is nothing to take. -/
def receiveSome (maxBytes : ℕ) : Prog Stream StreamExn Bytes := fun s =>
  match s.receive s.calls with
  | .chunk size =>
    let n := min (max 1 size) maxBytes
    (.ok (s.incoming.take n), s.received n)
  | .broken => (.error .resource, s.received 0)

/-- The loop of `_read_exactly`, for at most so many calls of `receive_some`. -/
def receiveLoop (num : ℤ) : ℕ → Bytes → Prog Stream StreamExn Bytes
  | 0, data => if data.length < num then stay else pure data
  | fuel + 1, data =>
    if data.length < num then do
      let more ← receiveSome (num - data.length).toNat
      receiveLoop num fuel (data ++ more)
    else pure data

def readExactly (num : ℤ) (fuel : ℕ) : Prog Stream StreamExn (Option Bytes) :=
  handle (do return some (← receiveLoop num fuel [])) fun
    | .resource => do
      modify fun s => { s with closed := true }
      return none
    | e => throw e

/-! ### What the reader makes of it -/

/-- `struct.unpack("<qL", buf)`. -/
def unpack : Option Bytes → Except StreamExn (ℤ × ℕ)
  | some buf => match unpackHeader buf with
    | some header => .ok header
    | none => .error .struct
  | none => .error .type

/-- A turn of `_reader_task`; `forward` is what it does with a token and a payload. -/
def readerTurn (forward : ℤ → Option Bytes → Prog Stream StreamExn Unit) (fuel : ℕ) :
    Prog Stream StreamExn Bool := do
  let buf ← readExactly 12 fuel
  let (token, length) ← ofExcept (unpack buf)
  let buf ← readExactly length fuel
  forward token buf
  return true

/-- `_reader_task`, up to where `close` begins to close the connection. -/
def readerTask (forward : ℤ → Option Bytes → Prog Stream StreamExn Unit) (fuel : ℕ) :
    Prog Stream StreamExn Unit :=
  handle (turns (readerTurn forward fuel) fuel) fun _ =>
    modify fun s => { s with closing := true }

section Loop
variable {num : ℤ} {data : Bytes} {s : Stream}

theorem receiveLoop_enough (h : num ≤ data.length) (fuel : ℕ) :
    receiveLoop num fuel data s = (.ok data, s) := by
  cases fuel with
  | zero =>
    rw [receiveLoop, if_neg (not_lt.mpr h)]
    rfl
  | succ fuel =>
    rw [receiveLoop, if_neg (not_lt.mpr h)]
    rfl

theorem receiveLoop_chunk {size : ℕ} (h : data.length < num)
    (hreceive : s.receive s.calls = .chunk size) (fuel : ℕ) :
    receiveLoop num (fuel + 1) data s =
      receiveLoop num fuel
        (data ++ s.incoming.take (min (max 1 size) (num - data.length).toNat))
        (s.received (min (max 1 size) (num - data.length).toNat)) := by
  rw [receiveLoop, if_pos h]
  apply bind_of_ok
  unfold receiveSome
  rw [hreceive]

theorem receiveLoop_broken (h : data.length < num) (hreceive : s.receive s.calls = .broken)
    (fuel : ℕ) : receiveLoop num (fuel + 1) data s = (.error .resource, s.received 0) := by
  rw [receiveLoop, if_pos h]
  apply bind_of_error
  unfold receiveSome
  rw [hreceive]

/-- The loop is over after some number of calls: with the bytes that were missing, if the stream
has them, or because a call raises. -/
def Stops (num : ℤ) (data : Bytes) (s : Stream) : Prop :=
  ∃ fuel o s', receiveLoop num fuel data s = (o, s') ∧
    (o = .ok (data ++ s.incoming.take (num.toNat - data.length)) ∧
        num ≤ data.length + s.incoming.length ∧
        s'.incoming = s.incoming.drop (num.toNat - data.length) ∨
      o = .error .resource ∧ s.Breaks)

theorem stops_of_enough (h : num ≤ data.length) : Stops num data s := by
  refine ⟨0, _, _, receiveLoop_enough h 0, .inl ⟨?_, by omega, ?_⟩⟩
  · rw [show num.toNat - data.length = 0 by omega, List.take_zero, List.append_nil]
  · rw [show num.toNat - data.length = 0 by omega, List.drop_zero]

theorem stops_of_broken (h : data.length < num) (hreceive : s.receive s.calls = .broken) :
    Stops num data s :=
  ⟨1, _, _, receiveLoop_broken h hreceive 0, .inr ⟨rfl, 0, hreceive⟩⟩

theorem take_then {l : Bytes} {n m : ℕ} (h : n ≤ m) :
    l.take n ++ (l.drop n).take (m - (l.take n).length) = l.take m := by
  rw [List.length_take]
  by_cases hlength : l.length ≤ n
  · rw [List.drop_of_length_le hlength, List.take_nil, List.append_nil,
      List.take_of_length_le hlength, List.take_of_length_le (hlength.trans h)]
  · rw [Nat.min_eq_left (by omega), ← List.take_add, Nat.add_sub_cancel' h]

theorem drop_then {l : Bytes} {n m : ℕ} (h : n ≤ m) :
    (l.drop n).drop (m - (l.take n).length) = l.drop m := by
  rw [List.length_take, List.drop_drop]
  by_cases hlength : l.length ≤ n
  · rw [List.drop_of_length_le (by omega), List.drop_of_length_le (by omega)]
  · rw [Nat.min_eq_left (by omega), Nat.add_sub_cancel' h]

/-- One call further back. -/
theorem Stops.of_chunk {size : ℕ} (h : data.length < num)
    (hreceive : s.receive s.calls = .chunk size)
    (hstops : Stops num (data ++ s.incoming.take (min (max 1 size) (num - data.length).toNat))
      (s.received (min (max 1 size) (num - data.length).toNat))) :
    Stops num data s := by
  obtain ⟨fuel, o, s', hloop, hout⟩ := hstops
  refine ⟨fuel + 1, o, s', (receiveLoop_chunk h hreceive fuel).trans hloop, ?_⟩
  have hle : min (max 1 size) (num - data.length).toNat ≤ num.toNat - data.length := by omega
  cases hout with
  | inl hout =>
    obtain ⟨ho, henough, hs'⟩ := hout
    left
    rw [List.length_append, ← Nat.sub_sub] at ho hs'
    refine ⟨?_, ?_, ?_⟩
    · rw [ho, List.append_assoc]
      exact congrArg (fun rest => Outcome.ok (data ++ rest)) (take_then hle)
    · rw [List.length_append, List.length_take] at henough
      change _ ≤ _ + ((s.incoming.drop _).length : ℤ) at henough
      rw [List.length_drop] at henough
      omega
    · rw [hs']
      exact drop_then hle
  | inr hout =>
    exact .inr ⟨hout.1, hout.2.of_received⟩

/-- Each call brings the loop nearer to what it is to read. -/
theorem stops_of_length (h : num ≤ data.length + s.incoming.length) : Stops num data s := by
  induction hmissing : (num - data.length).toNat using Nat.strong_induction_on
    generalizing data s with
  | _ missing ih =>
    by_cases henough : num ≤ data.length
    · exact stops_of_enough henough
    · have hless := not_le.mp henough
      cases hreceive : s.receive s.calls with
      | broken => exact stops_of_broken hless hreceive
      | chunk size =>
        apply Stops.of_chunk hless hreceive
        apply ih _ _ _ rfl
        · rw [List.length_append, List.length_take]
          omega
        · change _ ≤ _ + ((s.incoming.drop _).length : ℤ)
          rw [List.length_append, List.length_take, List.length_drop]
          omega

/-- Each call brings the loop nearer to the one that raises. -/
theorem stops_of_breaks (h : s.Breaks) : Stops num data s := by
  obtain ⟨k, hk⟩ := h
  induction k generalizing data s with
  | zero =>
    by_cases henough : num ≤ data.length
    · exact stops_of_enough henough
    · exact stops_of_broken (not_le.mp henough) hk
  | succ k ih =>
    by_cases henough : num ≤ data.length
    · exact stops_of_enough henough
    · have hless := not_le.mp henough
      cases hreceive : s.receive s.calls with
      | broken => exact stops_of_broken hless hreceive
      | chunk size =>
        apply Stops.of_chunk hless hreceive
        apply ih
        rw [← hk, Nat.add_comm k 1, ← Nat.add_assoc]
        rfl

/-- A stream that ends too early, and does not raise, keeps the loop busy for ever. -/
theorem receiveLoop_spins (h : data.length + s.incoming.length < num) (hsteady : ¬s.Breaks)
    (fuel : ℕ) : ∃ n calls, receiveLoop num fuel data s =
      (.running, { s with incoming := s.incoming.drop n, calls := calls }) := by
  induction fuel generalizing data s with
  | zero =>
    refine ⟨0, s.calls, ?_⟩
    rw [receiveLoop, if_pos (by omega)]
    rfl
  | succ fuel ih =>
    cases hreceive : s.receive s.calls with
    | broken => exact absurd ⟨0, hreceive⟩ hsteady
    | chunk size =>
      have hshort : (data ++ s.incoming.take (min (max 1 size) (num - data.length).toNat)).length +
          ((s.received (min (max 1 size) (num - data.length).toNat)).incoming.length : ℤ) < num := by
        change _ + ((s.incoming.drop _).length : ℤ) < _
        rw [List.length_append, List.length_take, List.length_drop]
        omega
      have hsteady' : ¬(s.received (min (max 1 size) (num - data.length).toNat)).Breaks :=
        fun hbreaks => hsteady hbreaks.of_received
      obtain ⟨n, calls, hloop⟩ := ih hshort hsteady'
      refine ⟨min (max 1 size) (num - data.length).toNat + n, calls, ?_⟩
      rw [receiveLoop_chunk (by omega) hreceive, hloop, ← List.drop_drop]
      rfl

theorem readExactly_of_loop {fuel : ℕ} {o : Outcome StreamExn Bytes} {s' : Stream}
    (h : receiveLoop num fuel [] s = (o, s')) : readExactly num fuel s = match o with
      | .ok data => (.ok (some data), s')
      | .error .resource => (.ok none, { s' with closed := true })
      | .error e => (.error e, s')
      | .running => (.running, s') := by
  cases o with
  | ok data =>
    unfold readExactly handle
    rw [bind_of_ok h]
    rfl
  | error e =>
    unfold readExactly handle
    rw [bind_of_error h]
    cases e with
    | resource => rfl
    | type => rfl
    | struct => rfl
  | running =>
    have hbind : (do return some (← receiveLoop num fuel []) : Prog Stream StreamExn (Option Bytes)) s =
        (.running, s') := congrArg (after _) h
    unfold readExactly handle
    rw [hbind]

theorem readExactly_spins (h : s.incoming.length < num) (hsteady : ¬s.Breaks) (fuel : ℕ) :
    ∃ n calls, readExactly num fuel s =
      (.running, { s with incoming := s.incoming.drop n, calls := calls }) := by
  obtain ⟨n, calls, hloop⟩ := @receiveLoop_spins num [] s (by simpa using h) hsteady fuel
  exact ⟨n, calls, readExactly_of_loop hloop⟩

/-! ### The reader task -/

/-- Without a header the reader closes the connection. -/
theorem readerTask_closes (forward : ℤ → Option Bytes → Prog Stream StreamExn Unit) {fuel : ℕ}
    (hfuel : 0 < fuel) {s' : Stream} (h : readExactly 12 fuel s = (.ok none, s')) :
    readerTask forward fuel s = (.ok (), { s' with closing := true }) := by
  have hturn : readerTurn forward fuel s = (.error .type, s') := bind_of_ok h _
  obtain ⟨n, hn⟩ : ∃ n, fuel = n + 1 := ⟨fuel - 1, by omega⟩
  have hturns : turns (readerTurn forward fuel) fuel s = (.error .type, s') := by
    nth_rewrite 2 [hn]
    exact bind_of_error hturn _
  unfold readerTask handle
  rw [hturns]
  rfl

/-- At the end of the stream the reader neither ends nor closes the connection. -/
theorem readerTask_spins (forward : ℤ → Option Bytes → Prog Stream StreamExn Unit)
    (h : s.incoming.length < 12) (hsteady : ¬s.Breaks) (fuel : ℕ) :
    (readerTask forward fuel s).1 = .running ∧ (readerTask forward fuel s).2.isOpen = s.isOpen := by
  obtain ⟨n, calls, hspins⟩ := @readExactly_spins 12 s (by omega) hsteady fuel
  have hturn : readerTurn forward fuel s =
      (.running, { s with incoming := s.incoming.drop n, calls := calls }) := by
    unfold readerTurn
    exact congrArg (after _) hspins
  have hturns : ∃ s', turns (readerTurn forward fuel) fuel s = (.running, s') ∧
      s'.isOpen = s.isOpen := by
    cases hfuel : fuel with
    | zero => exact ⟨s, rfl, rfl⟩
    | succ n =>
      rw [hfuel] at hturn
      exact ⟨_, congrArg (after _) hturn, rfl⟩
  obtain ⟨s', hturns, hopen⟩ := hturns
  unfold readerTask handle
  rw [hturns]
  exact ⟨rfl, hopen⟩

/-! ### When it is over -/

/-- `_read_exactly` is over, with the next `num` bytes if the stream has them. It fails only for
want of bytes, or because the stream raises. -/
def Right (num : ℤ) (s : Stream) : Outcome StreamExn (Option Bytes) × Stream → Prop
  | (.ok (some data), s') => num ≤ s.incoming.length ∧ data = s.incoming.take num.toNat ∧
      s'.incoming = s.incoming.drop num.toNat
  | (.ok none, s') => s'.closed = true ∧ (s.incoming.length < num ∨ s.Breaks)
  | _ => False

/-- Short of `num` bytes the end of the stream is never noticed. -/
theorem readExactly_finishes_iff (num : ℤ) (s : Stream) :
    (∃ fuel, Right num s (readExactly num fuel s)) ↔
      num ≤ s.incoming.length ∨ s.Breaks := by
  constructor
  · intro ⟨fuel, hright⟩
    by_contra hneither
    rw [not_or, not_le] at hneither
    obtain ⟨n, calls, hspins⟩ := readExactly_spins hneither.1 hneither.2 fuel
    rw [hspins] at hright
    exact hright
  · intro h
    have hstops : Stops num [] s := by
      cases h with
      | inl henough => exact stops_of_length (by simpa using henough)
      | inr hbreaks => exact stops_of_breaks hbreaks
    obtain ⟨fuel, o, s', hloop, hout⟩ := hstops
    refine ⟨fuel, ?_⟩
    rw [readExactly_of_loop hloop]
    cases hout with
    | inl hout =>
      obtain ⟨rfl, henough, hs'⟩ := hout
      exact ⟨by simpa using henough, rfl, hs'⟩
    | inr hout =>
      obtain ⟨rfl, hbreaks⟩ := hout
      exact ⟨rfl, .inr hbreaks⟩

end Loop

def gone : Stream where
  incoming := []
  receive _ := .chunk 1
  calls := 0
  closing := false
  closed := false

theorem readExactly_gone_spins :
    ¬(∃ fuel, Right 12 gone (readExactly 12 fuel gone)) ∧ ∀ fuel,
      (readerTask (fun _ _ => pure ()) fuel gone).1 = .running ∧
        (readerTask (fun _ _ => pure ()) fuel gone).2.isOpen = true := by
  have hsteady : ¬gone.Breaks := by
    intro ⟨k, hk⟩
    cases hk
  constructor
  · intro ⟨fuel, hright⟩
    obtain ⟨n, calls, hspins⟩ := @readExactly_spins 12 gone (by decide) hsteady fuel
    rw [hspins] at hright
    exact hright
  · intro fuel
    exact readerTask_spins _ (by decide) hsteady fuel

end RethinkDB.Async.Trio
