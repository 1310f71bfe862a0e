import RethinkDB.Net.Arrival
import RethinkDB.Net.Turn

/-! Where in the stream a read leaves a wrapper that stays open. -/
namespace RethinkDB.Net
open RethinkDB.Lib

variable {V : Type} {P : Peer V}

namespace Transport

/-- What the server sends while a schedule goes by. -/
def sending (t : Transport P) (env : List (Event P.Act)) : Bytes := (P.acts t.peer (actsOf env)).2

/-- The wrapper is closed, or what is buffered and what is still to be received is all that was before,
and what the server has sent since. -/
def Kept (t t' : Transport P) : Prop :=
  t'.isOpen = false ∨ ∃ before, t.env = before ++ t'.env ∧
    t'.readBuffer.getD [] ++ t'.incoming =
      t.readBuffer.getD [] ++ t.incoming ++ t.sending before

/-- What a read that returns has delivered: `_read_buffer`, which stays as it is, and what followed on
the stream. -/
def Delivers (t : Transport P) (r : Bytes) (t' : Transport P) : Prop :=
  t'.readBuffer = t.readBuffer ∧ ∃ before got, t.env = before ++ t'.env ∧
    r = t.readBuffer.getD [] ++ got ∧ got ++ t'.incoming = t.incoming ++ t.sending before

/-- An `OSError` that closes nothing comes with `had` bytes received and `n` still asked for. -/
def Broken : ℕ → ℕ → List (Event P.Act) → Transport P → Prop
  | _, _, [], _ => False
  | n, had, .peer a :: env, t => Broken n had env (t.peerAct a)
  | n, had, .recv o :: env, t => match t.recv n o with
    | none | some .eintr => Broken n had env t
    | some (.data chunk) => chunk ≠ [] ∧ chunk.length < n ∧
        Broken (n - chunk.length) (had + chunk.length) env (t.delivered chunk)
    | some (.osError _) => 0 < had
    | some _ => False

/-- A read that began in `t₀`, `got` being what it has received. -/
structure Underway (t₀ : Transport P) (B : Prop) (length : ℕ) (env : List (Event P.Act)) (res : Bytes)
    (t : Transport P) (before : List (Event P.Act)) (got : Bytes) : Prop where
  schedule : t₀.env = before ++ env
  result : res = t₀.readBuffer.getD [] ++ got
  bytes : got ++ t.incoming = t₀.incoming ++ t₀.sending before
  peer : t.peer = (P.acts t₀.peer (actsOf before)).1
  buffer : t.readBuffer = t₀.readBuffer
  isOpen : t.isOpen = true
  patient : got = [] ∨ t.timeout = none
  broken : res.length < length → (Broken (length - res.length) got.length env t ↔ B)
  unbroken : length ≤ res.length → ¬B

theorem sending_append (t : Transport P) (env env' : List (Event P.Act)) :
    t.sending (env ++ env') =
      t.sending env ++ (P.acts (P.acts t.peer (actsOf env)).1 (actsOf env')).2 := by
  rw [sending, sending, actsOf_append, Peer.acts_append]

section Underway
variable {t₀ t t' : Transport P} {B : Prop} {length : ℕ} {env before : List (Event P.Act)}
  {res res' got : Bytes} {e : Event P.Act}

/-- A `recv` takes no part in what the server does. -/
theorem sending_recv (t : Transport P) (env : List (Event P.Act)) (o : RecvOutcome) :
    t.sending (env ++ [.recv o]) = t.sending env := by
  rw [sending_append]
  simp [actsOf, Peer.acts]

theorem recv_data {n : ℕ} {o : RecvOutcome} {chunk : Bytes} (h : t.recv n o = some (.data chunk)) :
    chunk ++ t.incoming.drop chunk.length = t.incoming := by
  have hprefix : chunk <+: t.incoming := by
    cases o with
    | chunk k =>
      simp only [recv] at h
      split_ifs at h
      cases h
      exact List.take_prefix _ _
    | eof =>
      cases h
      exact List.nil_prefix
    | timeout =>
      unfold recv at h
      cases htime : t.timeout <;> simp [htime] at h
    | wouldBlock =>
      simp only [recv] at h
      split_ifs at h
      cases h
    | eintr | timedOut | connReset | osError text | exception text => cases h
  obtain ⟨rest, hrest⟩ := hprefix
  rw [← hrest, List.drop_left]

theorem recv_wouldBlock {n : ℕ} {o : RecvOutcome} (h : t.recv n o = some .wouldBlock) :
    t.timeout = some 0 := by
  cases o with
  | wouldBlock =>
    simp only [recv] at h
    split_ifs at h with hzero
    exact hzero
  | chunk k =>
    simp only [recv] at h
    split_ifs at h
    cases h
  | timeout =>
    unfold recv at h
    cases htime : t.timeout <;> simp [htime] at h
  | eintr | timedOut | connReset | osError text | exception text | eof => cases h

theorem Underway.goes (h : Underway t₀ B length (e :: env) res t before got)
    (hmissing : res.length < length) (hturn : t.turn length res e = .goes res' t') :
    ∃ before' got', Underway t₀ B length env res' t' before' got' := by
  have hschedule : t₀.env = (before ++ [e]) ++ env := by
    rw [h.schedule, List.append_assoc]
    rfl
  have hbroken := h.broken hmissing
  rcases turn_goes hturn with ⟨a, rfl, rfl, rfl⟩ | ⟨o, rfl, hr, rfl, rfl⟩ |
    ⟨o, chunk, rfl, hr, hne, rfl, rfl⟩
  · refine ⟨before ++ [.peer a], got, hschedule, h.result, ?_, ?_, h.buffer, h.isOpen, h.patient,
      fun _ => hbroken, h.unbroken⟩
    · rw [sending_append, ← List.append_assoc, ← h.bytes, ← h.peer]
      simp [peerAct, actsOf, Peer.acts]
    · rw [actsOf_append, Peer.acts_append, ← h.peer]
      simp [peerAct, actsOf, Peer.acts]
  · refine ⟨before ++ [.recv o], got, hschedule, h.result, ?_, ?_, h.buffer, h.isOpen, h.patient,
      fun _ => ?_, h.unbroken⟩
    · rw [sending_recv]
      exact h.bytes
    · rw [actsOf_append, Peer.acts_append, ← h.peer]
      simp [actsOf, Peer.acts]
    · rcases hr with hr | hr <;> simpa only [Broken, hr] using hbroken
  · have hlength : (res ++ chunk).length = res.length + chunk.length := List.length_append
    simp only [Broken, hr, hne, ne_eq, not_false_eq_true, true_and] at hbroken
    refine ⟨before ++ [.recv o], got ++ chunk, hschedule, ?_, ?_, ?_, h.buffer, h.isOpen, Or.inr rfl,
      fun hless => ?_, fun hdone hB => ?_⟩
    · rw [h.result, List.append_assoc]
    · rw [sending_recv, ← h.bytes, List.append_assoc]
      exact congrArg (got ++ ·) (recv_data hr)
    · rw [actsOf_append, Peer.acts_append, ← h.peer]
      simp [delivered, actsOf, Peer.acts]
    · rw [hlength, List.length_append, Nat.sub_add_eq]
      have hpart : chunk.length < length - res.length := by omega
      simpa only [hpart, true_and] using hbroken
    · have hpart := (hbroken.mpr hB).1
      omega

/-- What a turn that ends the loops leaves is kept, unless an `OSError` broke into the read. -/
theorem Underway.ends {ex : Exn V} (h : Underway t₀ B length (e :: env) res t before got)
    (hmissing : res.length < length) (hturn : t.turn length res e = .ends ex t') :
    Kept t₀ { t' with env } ↔ ¬B := by
  have hbroken := h.broken hmissing
  have hbytes := h.bytes
  obtain ⟨o, r, rfl, hr, hleft⟩ := turn_ends hturn
  have hschedule : t₀.env = (before ++ [.recv o]) ++ env := by
    rw [h.schedule, List.append_assoc]
    rfl
  cases r with
  | data chunk =>
    obtain ⟨rfl, rfl⟩ := hleft
    simp only [Broken, hr, ne_eq, not_true_eq_false, false_and, false_iff] at hbroken
    exact iff_of_true (Or.inl rfl) hbroken
  | timeout =>
    obtain rfl := hleft
    simp only [Broken, hr, false_iff] at hbroken
    refine iff_of_true (Or.inr ⟨before ++ [.recv o], hschedule, ?_⟩) hbroken
    rw [sending_recv, List.append_assoc, ← hbytes, ← List.append_assoc, ← h.result]
    rfl
  | connReset | exception text =>
    obtain rfl := hleft
    simp only [Broken, hr, false_iff] at hbroken
    exact iff_of_true (Or.inl rfl) hbroken
  | eintr => exact hleft.elim
  | wouldBlock =>
    obtain rfl := hleft
    simp only [Broken, hr, false_iff] at hbroken
    refine iff_of_true (Or.inr ⟨before ++ [.recv o], hschedule, ?_⟩) hbroken
    have hgot : got = [] := by
      apply h.patient.resolve_right
      rw [recv_wouldBlock hr]
      simp
    rw [sending_recv, List.append_assoc, ← hbytes, hgot, List.nil_append, ← h.buffer]
  | osError text =>
    obtain rfl := hleft
    simp only [Broken, hr] at hbroken
    rw [← hbroken]
    constructor
    · rintro (hclosed | ⟨before', hcut, hkept⟩) hhad
      · rw [h.isOpen] at hclosed
        cases hclosed
      · obtain rfl := List.append_cancel_right (hschedule.symm.trans hcut)
        rw [sending_recv, List.append_assoc, ← hbytes, ← h.buffer] at hkept
        have hsame : t'.incoming.length = (got ++ t'.incoming).length :=
          congrArg List.length (List.append_cancel_left hkept)
        rw [List.length_append] at hsame
        omega
    · intro hnone
      have hgot : got = [] := List.length_eq_zero_iff.mp (by omega)
      refine Or.inr ⟨before ++ [.recv o], hschedule, ?_⟩
      rw [sending_recv, List.append_assoc, ← hbytes, hgot, List.nil_append, ← h.buffer]

end Underway

/-- How a read comes to its end: one that raises has kept the stream unless `B`, and no other is `B`. -/
def Settled (t₀ : Transport P) (B : Prop) (t' : Transport P) : Outcome (Exn V) Bytes → Prop
  | .error _ => Kept t₀ t' ↔ ¬B
  | .ok r => ¬B ∧ Delivers t₀ r t'
  | .running => ¬B

theorem Underway.settled {t₀ t : Transport P} {B : Prop} {length : ℕ} {env before : List (Event P.Act)}
    {res got : Bytes} (h : Underway t₀ B length env res t before got) :
    Prog.wp (fun t => recvLoop length env res t) (fun o t' => Settled t₀ B t' o) t := by
  apply recvLoop_rule (I := fun env res t => ∃ before got, Underway t₀ B length env res t before got)
  · rintro env res t ⟨before, got, h⟩ hdone
    exact ⟨h.unbroken hdone, h.buffer, before, got, h.schedule, h.result, h.bytes⟩
  · rintro res t ⟨before, got, h⟩ hmissing hB
    exact (h.broken hmissing).mpr hB
  · rintro e env res t res' t' ⟨before, got, h⟩ hmissing hturn
    exact h.goes hmissing hturn
  · rintro e env res t ex t' ⟨before, got, h⟩ hmissing hturn
    exact h.ends hmissing hturn
  · exact ⟨before, got, h⟩

end Transport
end RethinkDB.Net
