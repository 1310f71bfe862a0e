import RethinkDB.Net.Socket

/-! What `recvall` does to a healthy socket: the bytes it returns and the bytes still to be
received are, in this order, the bytes that were there and those the server has sent since.
A timeout leaves no byte behind, for it can only strike before the first chunk. -/
namespace RethinkDB.Net
open RethinkDB.Lib

variable {V : Type} {P : Peer V}

/-- A run of server actions and the bytes it puts on the wire. -/
def Peer.acts (P : Peer V) : P.State → List P.Act → P.State × Bytes
  | s, [] => (s, [])
  | s, a :: as =>
    let (s', bs) := P.act s a
    let (s'', bs') := P.acts s' as
    (s'', bs ++ bs')

theorem Peer.acts_append (s : P.State) (as bs : List P.Act) :
    P.acts s (as ++ bs) = ((P.acts (P.acts s as).1 bs).1,
      (P.acts s as).2 ++ (P.acts (P.acts s as).1 bs).2) := by
  induction as generalizing s with
  | nil => simp [Peer.acts]
  | cons a as ih => simp [Peer.acts, ih]

/-- Events under which the connection stays up. -/
def Event.Soft {A : Type} : Event A → Prop
  | .peer _ => True
  | .recv (.chunk _) | .recv .timeout | .recv .wouldBlock | .recv .eintr => True
  | .recv _ => False

def SendOutcome.Soft : SendOutcome → Prop
  | .accept _ | .eintr => True
  | _ => False

namespace Transport

/-- From `t` to `t'` the socket delivered `got`, the server acting meanwhile. -/
structure Advanced (t t' : Transport P) (got : Bytes) : Prop where
  bytes : ∃ as, t'.peer = (P.acts t.peer as).1 ∧
    got ++ t'.incoming = t.incoming ++ (P.acts t.peer as).2
  address : t'.host = t.host ∧ t'.port = t.port
  isOpen : t'.isOpen = t.isOpen
  sends : t'.sends = t.sends
  env : t'.env <:+ t.env

theorem Advanced.refl (t : Transport P) : Advanced t t [] :=
  ⟨⟨[], by simp [Peer.acts]⟩, ⟨rfl, rfl⟩, rfl, rfl, List.suffix_rfl⟩

theorem Advanced.trans {t u v : Transport P} {got got' : Bytes} (h : Advanced t u got)
    (h' : Advanced u v got') : Advanced t v (got ++ got') := by
  obtain ⟨as, hp, hb⟩ := h.bytes
  obtain ⟨bs, hp', hb'⟩ := h'.bytes
  refine ⟨⟨as ++ bs, ?_, ?_⟩, ⟨h'.address.1.trans h.address.1, h'.address.2.trans h.address.2⟩,
    h'.isOpen.trans h.isOpen, h'.sends.trans h.sends, h'.env.trans h.env⟩
  · simp [Peer.acts_append, hp', hp]
  · rw [List.append_assoc, hb', ← List.append_assoc, hb, hp, Peer.acts_append, List.append_assoc]

theorem Advanced.act (t : Transport P) (a : P.Act) : Advanced t (t.peerAct a) [] :=
  ⟨⟨[a], by simp [Peer.acts, peerAct], by simp [Peer.acts, peerAct]⟩, ⟨rfl, rfl⟩, rfl, rfl,
    List.suffix_rfl⟩

/-- How `recvall` ends on a healthy socket, `res` being what the read buffer held. -/
structure RecvSpec (length : ℕ) (res : Bytes) (t : Transport P) (o : Outcome (Exn V) Bytes)
    (t' : Transport P) (got : Bytes) : Prop where
  advanced : Advanced t t' got
  returned : ∀ r, o = .ok r → r = res ++ got ∧ r.length = length ∧ t'.readBuffer = t.readBuffer ∧
    (res.length < length → t'.env.length < t.env.length)
  raised : ∀ e, o = .error e → e = .timeout t.host t.port ∧ got = [] ∧
    (t'.readBuffer = t.readBuffer ∨ t'.readBuffer = some res)
  blocked : o = .running → t'.env = []

/-- An event that delivers nothing can be put in front. -/
theorem RecvSpec.after {length : ℕ} {res got : Bytes} {t u t' : Transport P}
    {o : Outcome (Exn V) Bytes} (hu : Advanced t u []) (hbuf : u.readBuffer = t.readBuffer)
    (h : RecvSpec length res u o t' got) : RecvSpec length res t o t' got := by
  refine ⟨by simpa using hu.trans h.advanced, fun r hr => ?_, fun e he => ?_, h.blocked⟩
  · obtain ⟨hr, hl, hb, hless⟩ := h.returned r hr
    exact ⟨hr, hl, hb.trans hbuf, fun hlt => (hless hlt).trans_le hu.env.length_le⟩
  · obtain ⟨he, hg, hb⟩ := h.raised e he
    rw [hu.address.1, hu.address.2] at he
    rw [hbuf] at hb
    exact ⟨he, hg, hb⟩

/-- A chunk can be put in front of a read that cannot time out any more. -/
theorem RecvSpec.chunk {length : ℕ} {res chunk got : Bytes} {t u t' : Transport P}
    {o : Outcome (Exn V) Bytes} (hu : Advanced t u chunk) (hlen : u.env.length < t.env.length)
    (hbuf : u.readBuffer = t.readBuffer) (hne : ∀ e, o ≠ .error e)
    (h : RecvSpec length (res ++ chunk) u o t' got) :
    RecvSpec length res t o t' (chunk ++ got) := by
  refine ⟨hu.trans h.advanced, fun r hr => ?_, fun e he => absurd he (hne e), h.blocked⟩
  obtain ⟨hr, hl, hb, -⟩ := h.returned r hr
  have hsuf := h.advanced.env.length_le
  exact ⟨by rw [hr, List.append_assoc], hl, hb.trans hbuf, fun _ => by omega⟩

/-- The induction is on the schedule: a chunk switches the socket to blocking mode, after
which the second half of the statement rules the exceptions out. -/
theorem recvLoop_spec (length : ℕ) (env : List (Event P.Act)) (hsoft : ∀ e ∈ env, e.Soft)
    (res : Bytes) (t : Transport P) (hres : res.length ≤ length) :
    ∃ got, RecvSpec length res { t with env } (recvLoop length env res t).1
        (recvLoop length env res t).2 got ∧
      (t.timeout = none → ∀ e, (recvLoop length env res t).1 ≠ .error e) := by
  induction env generalizing res t with
  | nil =>
    by_cases h : length ≤ res.length
    · refine ⟨[], ?_, by simp [recvLoop, h]⟩
      simp only [recvLoop, if_pos h]
      exact ⟨.refl _, fun r hr => by cases hr; simp; omega, by simp, by simp⟩
    · refine ⟨[], ?_, by simp [recvLoop, h]⟩
      simp only [recvLoop, if_neg h]
      exact ⟨.refl _, by simp, by simp, by simp⟩
  | cons e env ih =>
    have hrest : ∀ e ∈ env, e.Soft := fun e he => hsoft e (List.mem_cons_of_mem _ he)
    by_cases h : length ≤ res.length
    · refine ⟨[], ?_, by simp [recvLoop, h]⟩
      simp only [recvLoop, if_pos h]
      exact ⟨.refl _, fun r hr => by cases hr; simp; omega, by simp, by simp⟩
    have hskip : Advanced { t with env := e :: env } { t with env } [] :=
      ⟨⟨[], by simp [Peer.acts]⟩, ⟨rfl, rfl⟩, rfl, rfl, List.suffix_cons _ _⟩
    have hwait : ∃ got, RecvSpec length res { t with env := e :: env } (recvLoop length env res t).1
        (recvLoop length env res t).2 got ∧
        (t.timeout = none → ∀ e, (recvLoop length env res t).1 ≠ .error e) := by
      obtain ⟨got, hspec, hblock⟩ := ih hrest res t hres
      exact ⟨got, hspec.after hskip rfl, hblock⟩
    cases e with
    | peer a =>
      simp only [recvLoop, if_neg h]
      obtain ⟨got, hspec, hblock⟩ := ih hrest res (t.peerAct a) hres
      have hact := hskip.trans (Advanced.act { t with env } a)
      exact ⟨got, hspec.after hact rfl, hblock⟩
    | recv o =>
      cases o with
      | chunk k =>
        simp only [recvLoop, if_neg h, recv]
        by_cases hin : t.incoming = []
        · simpa only [hin, if_true] using hwait
        · simp only [hin, if_false]
          obtain ⟨chunk, hchunk⟩ : ∃ c, c = t.incoming.take (min (k + 1) (length - res.length)) :=
            ⟨_, rfl⟩
          have hne : chunk ≠ [] := by
            rw [hchunk, ne_eq, List.take_eq_nil_iff]
            simp only [hin, or_false]
            omega
          have hlen : (res ++ chunk).length ≤ length := by
            simp only [hchunk, List.length_append, List.length_take]
            omega
          obtain ⟨rest, hcut⟩ := List.take_prefix (min (k + 1) (length - res.length)) t.incoming
          rw [← hchunk] at hcut
          have hdrop : t.incoming.drop chunk.length = rest := by rw [← hcut, List.drop_left]
          rw [← hchunk, if_neg hne, hdrop]
          obtain ⟨got, hspec, hblock⟩ := ih hrest (res ++ chunk)
            ({ t with incoming := rest }.settimeout none) hlen
          have hgot : Advanced { t with env := .recv (.chunk k) :: env }
              { { t with incoming := rest }.settimeout none with env } chunk :=
            ⟨⟨[], rfl, by simpa [Peer.acts, settimeout] using hcut⟩, ⟨rfl, rfl⟩, rfl, rfl,
              List.suffix_cons _ _⟩
          exact ⟨chunk ++ got, hspec.chunk hgot (by simp) rfl (hblock rfl), fun _ => hblock rfl⟩
      | timeout =>
        simp only [recvLoop, if_neg h, recv]
        cases htime : t.timeout with
        | none => simpa only [htime] using hwait
        | some s =>
          by_cases hs : 0 < s
          · simp only [hs, if_true]
            refine ⟨[], ⟨⟨⟨[], by simp [Peer.acts, settimeout]⟩, ⟨rfl, rfl⟩, rfl, rfl, List.suffix_cons _ _⟩,
              by simp, fun e he => ?_, by simp⟩, by simp⟩
            cases he
            exact ⟨rfl, rfl, Or.inr rfl⟩
          · simpa only [hs, if_false, htime] using hwait
      | wouldBlock =>
        simp only [recvLoop, if_neg h, recv]
        by_cases hs : t.timeout = some 0
        · simp only [hs, if_true]
          refine ⟨[], ⟨⟨⟨[], by simp [Peer.acts]⟩, ⟨rfl, rfl⟩, rfl, rfl, List.suffix_cons _ _⟩,
            by simp, fun e he => ?_, by simp⟩, by simp⟩
          cases he
          exact ⟨rfl, rfl, Or.inl rfl⟩
        · simpa only [hs, if_false] using hwait
      | eintr => simpa only [recvLoop, if_neg h, recv] using hwait
      | connReset => exact absurd (hsoft _ (List.mem_cons_self ..)) (by simp [Event.Soft])
      | timedOut => exact absurd (hsoft _ (List.mem_cons_self ..)) (by simp [Event.Soft])
      | osError text => exact absurd (hsoft _ (List.mem_cons_self ..)) (by simp [Event.Soft])
      | exception text => exact absurd (hsoft _ (List.mem_cons_self ..)) (by simp [Event.Soft])
      | eof => exact absurd (hsoft _ (List.mem_cons_self ..)) (by simp [Event.Soft])

theorem remaining_advanced (t : Transport P) (deadline : Option ℤ) :
    Advanced t ((t.remaining deadline).2.settimeout (t.remaining deadline).1) [] := by
  cases deadline <;>
    exact ⟨⟨[], by simp [Peer.acts, settimeout, remaining, now]⟩, ⟨rfl, rfl⟩, rfl, rfl,
      List.suffix_rfl⟩

theorem recvall_spec (length : ℕ) (deadline : Option ℤ) {t : Transport P} (hopen : t.isOpen = true)
    (hbuf : t.readBuffer.getD [] = []) (hsoft : ∀ e ∈ t.env, e.Soft) :
    Prog.wp (recvall length deadline) (fun o t' => (∃ got, RecvSpec length [] t o t' got) ∧
      (deadline = none → ∀ e, o ≠ .error e)) t := by
  obtain ⟨got, hspec, hpatient⟩ := recvLoop_spec length t.env hsoft []
    ((t.remaining deadline).2.settimeout (t.remaining deadline).1) (by simp)
  have hset := remaining_advanced t deadline
  unfold Prog.wp recvall
  simp only [hopen, if_true, hbuf]
  refine ⟨⟨got, RecvSpec.after hset ?_ ?_⟩, ?_⟩
  · cases deadline <;> rfl
  · cases deadline <;> exact hspec
  · rintro rfl
    exact hpatient rfl

theorem recvall_closed (length : ℕ) (deadline : Option ℤ) {t : Transport P}
    (hopen : t.isOpen = false) :
    Prog.wp (recvall length deadline)
      (fun o t' => o = .error .attribute ∧ t' = { t with ticks := t'.ticks }) t := by
  have hneg : ¬t.isOpen = true := by simp [hopen]
  unfold Prog.wp recvall
  simp only [if_neg hneg, true_and]
  cases deadline <;> rfl

end Transport
end RethinkDB.Net
