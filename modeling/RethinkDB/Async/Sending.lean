import RethinkDB.Lib.Machine
import RethinkDB.Net.Protocol

/-! Requests on one stream, sent by tasks that may be interrupted while they send: the first half of
`run_query` in the Trio and the Gevent driver. A lock lets one task send at a time. -/
namespace RethinkDB.Async
open RethinkDB.Lib Net

/-- A request that was given to the stream, of which the first `offset` bytes were accepted. -/
structure Sending where
  frame : Frame
  offset : ℕ

namespace Sending

def bytes (s : Sending) : Bytes := s.frame.encode.take s.offset

def Complete (s : Sending) : Prop := s.frame.encode.length ≤ s.offset

instance (s : Sending) : Decidable s.Complete := Nat.decLe _ _

def advance (s : Sending) (k : ℕ) : Sending := { s with offset := s.offset + k }

end Sending

/-- How a call of `send` came back. -/
inductive Ending where
  | returned | raised | interrupted
  deriving Repr, DecidableEq

/-- `stream` tells whether the stream takes bytes, `closed` whether the instance knows it does not,
`holder` who sends under the lock, `ended` what became of those who held it before. -/
structure Wire where
  stream : Bool
  closed : Bool
  holder : Option Sending
  waiting : List Frame
  ended : List (Sending × Ending)

/-- What a task that waits in `send` meets. `accept k` takes `k + 1` bytes; an interruption comes
from outside, and any number of bytes may have gone out that the task was not told of. -/
inductive SendEvent where
  | accept (k : ℕ)
  | eintr
  | error
  | interrupt (accepted : ℕ)
  deriving Repr, DecidableEq

namespace Wire

def release (w : Wire) (s : Sending) (e : Ending) : Wire :=
  { w with holder := none, ended := w.ended ++ [(s, e)] }

def holders (w : Wire) : List Sending := w.ended.map Prod.fst ++ w.holder.toList

def sent (w : Wire) : Bytes := w.holders.flatMap Sending.bytes

end Wire

/-- `_send` of the Trio driver. A broken or closed stream is only noted, and a cancellation leaves
the block of the lock like any exception. -/
def Trio.send (w : Wire) (s : Sending) : SendEvent → Wire
  | .accept k => { w with holder := some (s.advance (k + 1)) }
  | .eintr => w
  | .error => { w with stream := false, closed := true }.release s .returned
  | .interrupt accepted => w.release (s.advance accepted) .interrupted

/-- `SocketWrapper.sendall` of the Gevent driver, under the write mutex of `run_query`: it closes the
socket on every `Exception`, of which `gevent.Timeout` is none. -/
def Gevent.sendall (w : Wire) (s : Sending) : SendEvent → Wire
  | .accept k => { w with holder := some (s.advance (k + 1)) }
  | .eintr => w
  | .error => { w with stream := false, closed := true }.release s .raised
  | .interrupt accepted => w.release (s.advance accepted) .interrupted

inductive Sender where
  | trio | gevent
  deriving Repr, DecidableEq

def Sender.send : Sender → Wire → Sending → SendEvent → Wire
  | .trio => Trio.send
  | .gevent => Gevent.sendall

inductive SendStep where
  /-- A task comes to the lock with a request. -/
  | call (f : Frame)
  | acquire
  /-- A task waiting for the lock is interrupted. -/
  | leave
  | send (e : SendEvent)
  | finish
  /-- Some task, the reader perhaps, closes the stream. -/
  | close

namespace Wire

/-- An event that the sender can meet: only an open stream takes bytes, and no more than are left. -/
def Meets (w : Wire) (s : Sending) : SendEvent → Prop
  | .accept k => w.stream = true ∧ s.offset + (k + 1) ≤ s.frame.encode.length
  | .interrupt accepted => accepted = 0 ∨
      w.stream = true ∧ s.offset + accepted ≤ s.frame.encode.length
  | .eintr | .error => True

inductive Step (sender : Sender) : Wire → SendStep → Wire → Prop
  | call {w f} : Step sender w (.call f) { w with waiting := w.waiting ++ [f] }
  | acquire {w before f after} : w.holder = none → w.waiting = before ++ f :: after →
      Step sender w .acquire { w with holder := some ⟨f, 0⟩, waiting := before ++ after }
  | leave {w before f after} : w.waiting = before ++ f :: after →
      Step sender w .leave { w with waiting := before ++ after }
  | send {w s e} : w.holder = some s → ¬s.Complete → w.Meets s e →
      Step sender w (.send e) (sender.send w s e)
  | finish {w s} : w.holder = some s → s.Complete → Step sender w .finish (w.release s .returned)
  | close {w} : Step sender w .close { w with stream := false, closed := true }

def Fresh (w : Wire) : Prop := w = ⟨true, false, none, [], []⟩

def machine (sender : Sender) : Machine Wire SendStep := ⟨Fresh, Step sender⟩

/-- Those who put bytes on the stream: all of them whole frames but perhaps the last. -/
def Whole (w : Wire) (complete : List Sending) (last : Option Sending) : Prop :=
  w.holders.filter (fun s => 0 < s.offset) = complete ++ last.toList ∧ ∀ s ∈ complete, s.Complete

/-- The stream in bytes. -/
theorem Whole.sent {w : Wire} {complete : List Sending} {last : Option Sending}
    (h : w.Whole complete last) :
    w.sent = encodeFrames (complete.map Sending.frame) ++ last.toList.flatMap Sending.bytes := by
  have hskip : ∀ ss : List Sending, ss.flatMap Sending.bytes =
      (ss.filter fun s => 0 < s.offset).flatMap Sending.bytes := by
    intro ss
    induction ss with
    | nil => rfl
    | cons s ss ih =>
      by_cases hs : 0 < s.offset
      · simp [hs, ih]
      · have hnone : s.bytes = [] := by simp [Sending.bytes, Nat.eq_zero_of_not_pos hs]
        simp [hs, ih, hnone]
  have hwhole : complete.flatMap Sending.bytes = encodeFrames (complete.map Sending.frame) := by
    rw [encodeFrames, List.flatMap_map]
    apply List.flatMap_congr
    intro s hs
    exact List.take_of_length_le (h.2 s hs)
  rw [Wire.sent, hskip, h.1, List.flatMap_append, hwhole]

/-- An interruption that leaves no broken frame on a stream that still takes bytes. -/
def Harmless (w : Wire) : SendStep → Prop
  | .send (.interrupt accepted) => w.stream = false ∨ ∀ s, w.holder = some s →
      s.offset + accepted = 0 ∨ (s.advance accepted).Complete
  | _ => True

/-- As long as the stream takes bytes, nobody has left a broken frame on it. -/
structure Sound (w : Wire) : Prop where
  settled : w.stream = true → ∀ s ∈ w.ended.map Prod.fst, s.offset = 0 ∨ s.Complete
  whole : ∃ complete last, w.Whole complete last

theorem filter_settled {ss : List Sending} (h : ∀ s ∈ ss, s.offset = 0 ∨ s.Complete) :
    ∀ s ∈ ss.filter fun s => 0 < s.offset, s.Complete := by
  intro s hs
  obtain ⟨hmem, hpos⟩ := List.mem_filter.mp hs
  rcases h s hmem with h0 | hc
  · simp [h0] at hpos
  · exact hc

/-- Under a stream that is in order, whoever holds the lock may have sent any part of its frame. -/
theorem whole_of_settled {w : Wire} (hsettled : ∀ s ∈ w.ended.map Prod.fst, s.offset = 0 ∨ s.Complete) :
    ∃ complete last, w.Whole complete last := by
  refine ⟨_, (w.holder.toList.filter fun s => 0 < s.offset).head?, ?_, filter_settled hsettled⟩
  rw [holders, List.filter_append]
  cases w.holder with
  | none => rfl
  | some s => by_cases hs : 0 < s.offset <;> simp [hs]

theorem holders_release (w : Wire) {s : Sending} (h : w.holder = some s) (e : Ending) :
    (w.release s e).holders = w.holders := by
  simp [release, holders, h]

theorem Sound.release {w : Wire} (h : w.Sound) {s : Sending} (hholder : w.holder = some s)
    (hs : w.stream = true → s.offset = 0 ∨ s.Complete) (e : Ending) : (w.release s e).Sound where
  settled := by
    intro hstream s' hs'
    simp only [Wire.release, List.map_append, List.mem_append, List.map_cons, List.map_nil,
      List.mem_singleton] at hs'
    rcases hs' with hold | rfl
    · exact h.settled hstream s' hold
    · exact hs hstream
  whole := by
    obtain ⟨complete, last, hwhole⟩ := h.whole
    refine ⟨complete, last, ?_⟩
    rw [Whole, holders_release w hholder]
    exact hwhole

theorem Sound.close {w : Wire} (h : w.Sound) : Sound { w with stream := false, closed := true } :=
  ⟨nofun, h.whole⟩

/-- One event of a sender, whichever the sender. -/
theorem Sound.send {sender : Sender} {w : Wire} (h : w.Sound) {s : Sending}
    (hholder : w.holder = some s) {e : SendEvent} (hmeets : w.Meets s e)
    (hharmless : w.Harmless (.send e)) : (sender.send w s e).Sound := by
  cases e with
  | accept k =>
    have hsend : sender.send w s (.accept k) = { w with holder := some (s.advance (k + 1)) } := by
      cases sender <;> rfl
    rw [hsend]
    exact ⟨h.settled, whole_of_settled (h.settled hmeets.1)⟩
  | eintr =>
    have hsend : sender.send w s .eintr = w := by cases sender <;> rfl
    rwa [hsend]
  | error =>
    have hsend : ∃ ending, sender.send w s .error =
        Wire.release { w with stream := false, closed := true } s ending := by
      cases sender <;> exact ⟨_, rfl⟩
    obtain ⟨ending, hsend⟩ := hsend
    rw [hsend]
    apply h.close.release
    · exact hholder
    · nofun
  | interrupt accepted =>
    have hsend : sender.send w s (.interrupt accepted) =
        Wire.release { w with holder := some (s.advance accepted) } (s.advance accepted) .interrupted := by
      cases sender <;> rfl
    rw [hsend]
    by_cases hstream : w.stream = true
    · have hsettled : s.offset + accepted = 0 ∨ (s.advance accepted).Complete := by
        rcases hharmless with hclosed | hall
        · simp [hstream] at hclosed
        · exact hall s hholder
      have hadvanced : Wire.Sound { w with holder := some (s.advance accepted) } :=
        ⟨h.settled, whole_of_settled (h.settled hstream)⟩
      apply hadvanced.release rfl
      exact fun _ => hsettled
    · have hnone : accepted = 0 := by
        rcases hmeets with h0 | ⟨hopen, -⟩
        · exact h0
        · exact absurd hopen hstream
      have hsame : Wire.Sound { w with holder := some (s.advance accepted) } := by
        have hadvance : s.advance accepted = s := by rw [hnone]; rfl
        rw [hadvance, ← hholder]
        exact h
      apply hsame.release rfl
      exact fun hopen => absurd hopen hstream

theorem sound_fresh {w : Wire} (h : w.Fresh) : w.Sound := by
  unfold Fresh at h
  subst h
  exact ⟨by simp, [], none, rfl, by simp⟩

theorem Sound.step {sender : Sender} {w w' : Wire} {i : SendStep} (h : w.Sound)
    (hharmless : w.Harmless i) (hstep : Step sender w i w') : w'.Sound := by
  cases hstep with
  | call => exact ⟨h.settled, h.whole⟩
  | leave _ => exact ⟨h.settled, h.whole⟩
  | close => exact h.close
  | acquire hfree _ =>
    obtain ⟨complete, last, hwhole, hcomplete⟩ := h.whole
    refine ⟨h.settled, complete, last, ?_, hcomplete⟩
    rw [← hwhole]
    simp [holders, hfree]
  | send hholder _ hmeets => exact h.send hholder hmeets hharmless
  | finish hholder hdone => exact h.release hholder (fun _ => .inr hdone) _

/-- With someone after it, a frame has to be whole. -/
theorem Whole.mem_complete {w : Wire} {complete : List Sending} {last : Option Sending}
    (h : w.Whole complete last) {before : List Sending} {s t : Sending}
    (hholders : w.holders.filter (fun s => 0 < s.offset) = before ++ [s, t]) : s.Complete := by
  apply h.2
  have hsplit := h.1.symm.trans hholders
  cases last with
  | none =>
    rw [Option.toList_none, List.append_nil] at hsplit
    simp [hsplit]
  | some z =>
    have hassoc : before ++ [s, t] = (before ++ [s]) ++ [t] := by simp
    rw [hassoc, Option.toList_some] at hsplit
    obtain ⟨hcomplete, -⟩ := List.append_inj' hsplit rfl
    simp [hcomplete]

/-- `NOREPLY_WAIT` of token 7. -/
def noreplyWait : Frame := ⟨7, [91, 52, 93], by decide, by decide, by decide⟩

/-- Someone else holds the lock, and its first byte is out. -/
def followed (w : Wire) : Wire := { w with holder := some ⟨noreplyWait, 1⟩ }

theorem leads_followed (sender : Sender) {w : Wire} (hstream : w.stream = true) (hfree : w.holder = none) :
    (machine sender).Leads w w.followed := by
  let w₁ : Wire := { w with waiting := w.waiting ++ [noreplyWait] }
  let w₂ : Wire := { w with holder := some ⟨noreplyWait, 0⟩ }
  have hcall : (machine sender).Leads w w₁ := .single (i := .call noreplyWait) .call
  have hturn : (machine sender).step w₁ .acquire w₂ := by
    have hwaiting : w₁.waiting = w.waiting ++ noreplyWait :: [] := rfl
    have hacquire : Step sender w₁ .acquire _ := Step.acquire hfree hwaiting
    rwa [List.append_nil] at hacquire
  have hbyte : (machine sender).step w₂ (.send (.accept 0)) w.followed := by
    have hput : sender.send w₂ ⟨noreplyWait, 0⟩ (.accept 0) = w.followed := by cases sender <;> rfl
    rw [← hput]
    apply Step.send rfl
    · decide
    · exact ⟨hstream, by decide⟩
  exact (hcall.tail hturn).tail hbyte

/-- A frame broken off on an open stream, and then the first byte of whoever comes next. -/
theorem broken_off {sender : Sender} {w w' : Wire} {i : SendStep} (hharm : ¬w.Harmless i)
    (hstep : Step sender w i w') :
    (machine sender).Leads w' w'.followed ∧ ¬∃ complete last, w'.followed.Whole complete last := by
  cases hstep with
  | call => exact absurd trivial hharm
  | leave _ => exact absurd trivial hharm
  | close => exact absurd trivial hharm
  | acquire _ _ => exact absurd trivial hharm
  | finish _ _ => exact absurd trivial hharm
  | @send s e hholder _ _ =>
    cases e with
    | accept k => exact absurd trivial hharm
    | eintr => exact absurd trivial hharm
    | error => exact absurd trivial hharm
    | interrupt accepted =>
      simp only [Harmless, not_or, Bool.not_eq_false, not_forall] at hharm
      obtain ⟨hstream, s', hs', hpos, hbroken⟩ := hharm
      obtain rfl : s = s' := Option.some.inj (hholder.symm.trans hs')
      have hsend : sender.send w s (.interrupt accepted) =
          w.release (s.advance accepted) .interrupted := by cases sender <;> rfl
      rw [hsend]
      constructor
      · exact leads_followed sender hstream rfl
      · rintro ⟨complete, last, hwhole⟩
        apply hbroken
        have hput : 0 < (s.advance accepted).offset := Nat.pos_of_ne_zero hpos
        have hholders : (w.release (s.advance accepted) .interrupted).followed.holders.filter
            (fun s => 0 < s.offset) = (w.ended.map Prod.fst).filter (fun s => 0 < s.offset) ++
              [s.advance accepted, ⟨noreplyWait, 1⟩] := by
          simp [holders, followed, release, hput]
        exact hwhole.mem_complete hholders

/-- Without an interruption in the middle of a frame on an open stream, the bytes on the stream are
whole frames and then at most a beginning of one; and after such an interruption the next request
of any task follows a broken frame. -/
theorem whole_unless_broken_off (sender : Sender) :
    (∀ w, (machine sender).ReachedBy Harmless w → ∃ complete last, w.Whole complete last ∧
      w.sent = encodeFrames (complete.map Sending.frame) ++ last.toList.flatMap Sending.bytes) ∧
    ∀ w i w', (machine sender).Reachable w → ¬w.Harmless i → Step sender w i w' →
      (machine sender).Leads w' w'.followed ∧ ¬∃ complete last, w'.followed.Whole complete last := by
  constructor
  · intro w h
    have hsound : w.Sound := by
      apply h.invariant
      · exact fun _ hfresh => sound_fresh hfresh
      · exact fun _ _ _ _ hs hok hstep => hs.step hok hstep
    obtain ⟨complete, last, hwhole⟩ := hsound.whole
    exact ⟨complete, last, hwhole, hwhole.sent⟩
  · intro w i w' _ hharm hstep
    exact broken_off hharm hstep

/-- One byte of a request is out. -/
def begun : Wire := ⟨true, false, some ⟨noreplyWait, 1⟩, [], []⟩

theorem begun_reached (sender : Sender) : (machine sender).ReachedBy Harmless begun := by
  have hcall : (machine sender).step ⟨true, false, none, [], []⟩ (.call noreplyWait)
      ⟨true, false, none, [noreplyWait], []⟩ := Step.call
  have hturn : (machine sender).step ⟨true, false, none, [noreplyWait], []⟩ .acquire
      ⟨true, false, some ⟨noreplyWait, 0⟩, [], []⟩ := by
    have hwaiting : (⟨true, false, none, [noreplyWait], []⟩ : Wire).waiting = [] ++ noreplyWait :: [] := rfl
    exact Step.acquire rfl hwaiting
  have hbyte : (machine sender).step ⟨true, false, some ⟨noreplyWait, 0⟩, [], []⟩ (.send (.accept 0))
      begun := by
    have hput : sender.send ⟨true, false, some ⟨noreplyWait, 0⟩, [], []⟩ ⟨noreplyWait, 0⟩ (.accept 0) =
        begun := by cases sender <;> rfl
    rw [← hput]
    exact Step.send rfl (by decide) ⟨rfl, by decide⟩
  have hcalls : ∀ w, Harmless w (.call noreplyWait) := fun _ => trivial
  have hturns : ∀ w, Harmless w .acquire := fun _ => trivial
  have hbytes : ∀ w, Harmless w (.send (.accept 0)) := fun _ => trivial
  exact .step (.step (.step (.init rfl) (hcalls _) hcall) (hturns _) hturn) (hbytes _) hbyte

/-- A cancelled Trio task, or one out of time under Gevent, leaves that byte behind. -/
def abandoned : Wire := begun.release ⟨noreplyWait, 1⟩ .interrupted

theorem begun_interrupted (sender : Sender) : ¬begun.Harmless (.send (.interrupt 0)) ∧
    Step sender begun (.send (.interrupt 0)) abandoned := by
  constructor
  · simp [Harmless, begun, Sending.Complete, Sending.advance]
    decide
  · have hsend : sender.send begun ⟨noreplyWait, 1⟩ (.interrupt 0) = abandoned := by cases sender <;> rfl
    rw [← hsend]
    exact .send rfl (by decide) (.inl rfl)

theorem whole_unless_broken_off_begun :
    (∃ complete last, begun.Whole complete last ∧
      begun.sent = encodeFrames (complete.map Sending.frame) ++ last.toList.flatMap Sending.bytes) ∧
    (machine .trio).Leads abandoned abandoned.followed ∧
      ¬∃ complete last, abandoned.followed.Whole complete last := by
  have hreachable : (machine .trio).Reachable begun := (begun_reached .trio).mono fun _ _ _ => trivial
  obtain ⟨hharm, hstep⟩ := begun_interrupted .trio
  exact ⟨(whole_unless_broken_off .trio).1 begun (begun_reached .trio),
    (whole_unless_broken_off .trio).2 begun _ abandoned hreachable hharm hstep⟩

/-- The stream then carries the first byte of one frame and the first byte of the next. -/
theorem abandoned_not_whole :
    ((machine .trio).Reachable abandoned.followed ∧ (machine .gevent).Reachable abandoned.followed) ∧
    abandoned.followed.sent = noreplyWait.encode.take 1 ++ noreplyWait.encode.take 1 ∧
    ¬∃ complete last, abandoned.followed.Whole complete last := by
  have hreachable : ∀ sender, (machine sender).Reachable abandoned.followed := by
    intro sender
    have hbegun : (machine sender).Reachable begun := (begun_reached sender).mono fun _ _ _ => trivial
    have habandoned : (machine sender).Reachable abandoned :=
      .step hbegun trivial (begun_interrupted sender).2
    exact habandoned.leads (leads_followed sender rfl rfl)
  refine ⟨⟨hreachable .trio, hreachable .gevent⟩, by decide, ?_⟩
  exact (broken_off (begun_interrupted .trio).1 (begun_interrupted .trio).2).2

end Wire
end RethinkDB.Async
