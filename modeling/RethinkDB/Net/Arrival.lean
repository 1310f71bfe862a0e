import RethinkDB.Net.Resume
import RethinkDB.Net.Server

/-! What a schedule still brings: all bytes that will have been sent by its end, and how many of
them its `recv`s are sure to deliver to a reader that waits. -/
namespace RethinkDB.Net
open RethinkDB.Lib Prog

variable {V : Type} {P : Peer V}

def actsOf {A : Type} : List (Event A) → List A
  | [] => []
  | .peer a :: env => a :: actsOf env
  | .recv _ :: env => actsOf env

/-- The `recv`s of a schedule that deliver something when there is something. -/
def deliveries {A : Type} : List (Event A) → ℕ
  | [] => 0
  | .recv (.chunk _) :: env => deliveries env + 1
  | _ :: env => deliveries env

theorem actsOf_append {A : Type} (env env' : List (Event A)) :
    actsOf (env ++ env') = actsOf env ++ actsOf env' := by
  induction env with
  | nil => rfl
  | cons e env ih =>
    cases e with
    | peer a => exact congrArg (a :: ·) ih
    | recv o => exact ih

theorem mem_actsOf {A : Type} {env : List (Event A)} {a : A} : a ∈ actsOf env ↔ .peer a ∈ env := by
  induction env with
  | nil => simp [actsOf]
  | cons e env ih => cases e <;> simp [actsOf, ih]

namespace Transport

/-- The bytes there are and those still to be sent. -/
def future (t : Transport P) : Bytes := t.incoming ++ (P.acts t.peer (actsOf t.env)).2

/-- What a schedule is sure to deliver when `n` bytes are waiting already. -/
def supplied : List (Event P.Act) → P.State → ℕ → ℕ
  | [], _, _ => 0
  | .peer a :: env, s, n => supplied env (P.act s a).1 (n + (P.act s a).2.length)
  | .recv (.chunk _) :: env, s, 0 => supplied env s 0
  | .recv (.chunk _) :: env, s, n + 1 => supplied env s n + 1
  | .recv _ :: env, s, n => supplied env s n

def supply (t : Transport P) : ℕ := supplied t.env t.peer t.incoming.length

theorem supplied_succ_le (env : List (Event P.Act)) (s : P.State) (n : ℕ) :
    supplied env s (n + 1) ≤ supplied env s n + 1 := by
  induction env generalizing s n with
  | nil => simp [supplied]
  | cons e env ih =>
    cases e with
    | peer a =>
      have := ih (P.act s a).1 (n + (P.act s a).2.length)
      rw [Nat.add_right_comm] at this
      exact this
    | recv o =>
      cases o with
      | chunk k =>
        cases n with
        | zero => exact le_rfl
        | succ n => exact Nat.succ_le_succ (ih s n)
      | _ => exact ih s n

theorem supplied_add_le (env : List (Event P.Act)) (s : P.State) (n k : ℕ) :
    supplied env s (n + k) ≤ supplied env s n + k := by
  induction k with
  | zero => exact le_rfl
  | succ k ih =>
    have := supplied_succ_le env s (n + k)
    rw [← Nat.add_assoc]
    omega

theorem min_le_supplied (env : List (Event P.Act)) (s : P.State) (n : ℕ) :
    min n (deliveries env) ≤ supplied env s n := by
  induction env generalizing s n with
  | nil => simp [deliveries, supplied]
  | cons e env ih =>
    cases e with
    | peer a =>
      have := ih (P.act s a).1 (n + (P.act s a).2.length)
      simp only [deliveries, supplied]
      omega
    | recv o =>
      cases o with
      | chunk k =>
        cases n with
        | zero => simp
        | succ n =>
          have := ih s n
          simp only [deliveries, supplied]
          omega
      | _ => exact ih s n

/-- All that has been sent by the end of `before` is delivered if `recv`s enough come after it. -/
theorem le_supplied {env before after : List (Event P.Act)} (henv : env = before ++ after)
    {as : List P.Act} (has : actsOf before = as) (s : P.State) (n : ℕ)
    (h : n + (P.acts s as).2.length ≤ deliveries after) :
    n + (P.acts s as).2.length ≤ supplied env s n := by
  subst henv has
  induction before generalizing s n with
  | nil =>
    have := min_le_supplied after s n
    simp only [actsOf, Peer.acts, List.length_nil, Nat.add_zero, List.nil_append] at h ⊢
    omega
  | cons e before ih =>
    cases e with
    | peer a =>
      have hsum : (P.acts s (actsOf (.peer a :: before))).2.length =
          (P.act s a).2.length + (P.acts (P.act s a).1 (actsOf before)).2.length := List.length_append
      rw [hsum, ← Nat.add_assoc] at h ⊢
      exact ih _ _ h
    | recv o =>
      cases o with
      | chunk k =>
        cases n with
        | zero => exact ih s 0 h
        | succ n =>
          have := ih s n
          simp only [actsOf, List.cons_append, supplied] at h ⊢
          omega
      | _ => exact ih s n h

/-- From `t` to `t'` the socket delivered `got`, and no more of the schedule's `recv`s than that. -/
structure Arrived (t t' : Transport P) (got : Bytes) : Prop where
  future : got ++ t'.future = t.future
  supply : t.supply ≤ t'.supply + got.length
  isOpen : t'.isOpen = t.isOpen
  buffer : t'.readBuffer = t.readBuffer
  env : t'.env <:+ t.env
  shorter : got ≠ [] → t'.env.length < t.env.length

theorem Arrived.trans {t u v : Transport P} {got got' : Bytes} (h : Arrived t u got)
    (h' : Arrived u v got') : Arrived t v (got ++ got') := by
  have hle := h.env.length_le
  have hle' := h'.env.length_le
  refine ⟨?_, ?_, h'.isOpen.trans h.isOpen, h'.buffer.trans h.buffer, h'.env.trans h.env, ?_⟩
  · rw [List.append_assoc, h'.future, h.future]
  · have hsupply := h.supply
    have hsupply' := h'.supply
    rw [List.length_append]
    omega
  · intro hne
    by_cases hgot : got = []
    · have hless := h'.shorter fun hgot' => hne (by rw [hgot, hgot', List.append_nil])
      omega
    · have hless := h.shorter hgot
      omega

/-- How `recvall` comes out for a reader without a deadline. -/
def Patient (length : ℕ) (res : Bytes) (t : Transport P) (o : Outcome (Exn V) Bytes)
    (t' : Transport P) : Prop :=
  match o with
  | .ok r => r.length = length ∧ ∃ got, r = res ++ got ∧ Arrived t t' got
  | .error _ => False
  | .running => t.supply < length - res.length

/-- An event that delivers nothing can be put in front. -/
theorem Patient.after {length : ℕ} {res : Bytes} {t u t' : Transport P} {o : Outcome (Exn V) Bytes}
    (hu : Arrived t u []) (h : Patient length res u o t') : Patient length res t o t' := by
  cases o with
  | ok r =>
    obtain ⟨hlen, got, hr, harrived⟩ := h
    exact ⟨hlen, got, hr, hu.trans harrived⟩
  | error e => exact h
  | running => exact hu.supply.trans_lt h

/-- The induction is on the schedule. -/
theorem recvLoop_patient (length : ℕ) (env : List (Event P.Act)) (hsoft : ∀ e ∈ env, e.Soft)
    (res : Bytes) (t : Transport P) (htime : t.timeout = none) (hres : res.length ≤ length) :
    Patient length res { t with env } (recvLoop length env res t).1 (recvLoop length env res t).2 := by
  induction env generalizing res t with
  | nil =>
    by_cases h : length ≤ res.length
    · simp only [recvLoop, if_pos h]
      exact ⟨le_antisymm hres h, [], by simp, rfl, le_rfl, rfl, rfl, List.suffix_rfl, by simp⟩
    · simp only [recvLoop, if_neg h]
      show 0 < length - res.length
      omega
  | cons e env ih =>
    have hrest : ∀ e ∈ env, e.Soft := fun e he => hsoft e (List.mem_cons_of_mem _ he)
    by_cases h : length ≤ res.length
    · simp only [recvLoop, if_pos h]
      exact ⟨le_antisymm hres h, [], by simp, rfl, le_rfl, rfl, rfl, List.suffix_rfl, by simp⟩
    cases e with
    | peer a =>
      simp only [recvLoop, if_neg h]
      refine Patient.after ?_ (ih hrest res (t.peerAct a) htime hres)
      refine ⟨?_, ?_, rfl, rfl, List.suffix_cons _ _, by simp⟩
      · simp [future, actsOf, Peer.acts, peerAct]
      · simp [supply, supplied, peerAct]
    | recv o =>
      have hwait : (∀ k, o = .chunk k → t.incoming = []) →
          Patient length res { t with env := .recv o :: env } (recvLoop length env res t).1
            (recvLoop length env res t).2 := by
        intro hnone
        have hsupply : supply { t with env := .recv o :: env } ≤ supply { t with env } := by
          cases o with
          | chunk k => simp [supply, supplied, hnone k rfl]
          | _ => exact le_rfl
        have hskip : Arrived { t with env := .recv o :: env } { t with env } [] :=
          ⟨rfl, hsupply, rfl, rfl, List.suffix_cons _ _, by simp⟩
        exact Patient.after hskip (ih hrest res t htime hres)
      cases o with
      | chunk k =>
        simp only [recvLoop, if_neg h, recv]
        by_cases hin : t.incoming = []
        · simpa only [hin, if_true] using hwait fun _ _ => hin
        · simp only [hin, if_false]
          obtain ⟨chunk, hchunk⟩ : ∃ c, c = t.incoming.take (min (k + 1) (length - res.length)) :=
            ⟨_, rfl⟩
          have hne : chunk ≠ [] := by
            rw [hchunk, ne_eq, List.take_eq_nil_iff]
            simp only [hin, or_false]
            omega
          have hlen : (res ++ chunk).length ≤ length := by
            simp only [hchunk, List.length_append, List.length_take]
            omega
          obtain ⟨rest, hcut⟩ := List.take_prefix (min (k + 1) (length - res.length)) t.incoming
          rw [← hchunk] at hcut
          have hdrop : t.incoming.drop chunk.length = rest := by rw [← hcut, List.drop_left]
          rw [← hchunk, if_neg hne, hdrop]
          have hgot : Arrived { t with env := .recv (.chunk k) :: env }
              { { t with incoming := rest }.settimeout none with env } chunk := by
            refine ⟨?_, ?_, rfl, rfl, List.suffix_cons _ _, fun _ => by simp⟩
            · simp [future, actsOf, settimeout, ← hcut]
            · obtain ⟨n, hn⟩ : ∃ n, chunk.length = n + 1 :=
                Nat.exists_eq_succ_of_ne_zero (by simpa using hne)
              have hle := supplied_add_le env t.peer rest.length n
              have hlength : t.incoming.length = rest.length + n + 1 := by
                rw [← hcut, List.length_append, hn]
                omega
              simp only [supply, settimeout, hlength, supplied, hn]
              omega
          have hspec := ih hrest (res ++ chunk) ({ t with incoming := rest }.settimeout none) rfl hlen
          cases hloop : recvLoop length env (res ++ chunk) ({ t with incoming := rest }.settimeout none) with
          | mk o t' =>
          rw [hloop] at hspec
          cases o with
          | ok r =>
            obtain ⟨hr, got, hcat, harrived⟩ := hspec
            exact ⟨hr, chunk ++ got, by rw [hcat, List.append_assoc], hgot.trans harrived⟩
          | error e => exact hspec
          | running =>
            have hsupply := hgot.supply
            have hless' : supply { { t with incoming := rest }.settimeout none with env } <
              length - (res ++ chunk).length := hspec
            rw [List.length_append] at hless' hlen
            show supply { t with env := .recv (.chunk k) :: env } < length - res.length
            omega
      | timeout => simpa only [recvLoop, if_neg h, recv, htime] using hwait (by simp)
      | wouldBlock => simpa [recvLoop, if_neg h, recv, htime] using hwait (by simp)
      | eintr => simpa only [recvLoop, if_neg h, recv] using hwait (by simp)
      | connReset => exact absurd (hsoft _ (List.mem_cons_self ..)) (by simp [Event.Soft])
      | timedOut => exact absurd (hsoft _ (List.mem_cons_self ..)) (by simp [Event.Soft])
      | osError text => exact absurd (hsoft _ (List.mem_cons_self ..)) (by simp [Event.Soft])
      | exception text => exact absurd (hsoft _ (List.mem_cons_self ..)) (by simp [Event.Soft])
      | eof => exact absurd (hsoft _ (List.mem_cons_self ..)) (by simp [Event.Soft])

theorem recvall_patient (length : ℕ) {t : Transport P} (hopen : t.isOpen = true)
    (hbuf : t.readBuffer.getD [] = []) (hsoft : ∀ e ∈ t.env, e.Soft) :
    wp (recvall length none) (Patient length [] t : Outcome (Exn V) Bytes → Transport P → Prop) t := by
  have hspec := recvLoop_patient (V := V) length t.env hsoft [] (t.settimeout none) rfl (Nat.zero_le _)
  have hset : Arrived t (t.settimeout none) [] := ⟨rfl, le_rfl, rfl, rfl, List.suffix_rfl, by simp⟩
  unfold wp recvall
  simp only [remaining, hopen, if_true, hbuf]
  exact hspec.after hset

end Transport
namespace Driver

/-- By the end of the schedule the reader will have been sent the frames `fs`. -/
structure Inbound (d : Driver P) (fs : List Frame) : Prop where
  isOpen : d.io.isOpen = true
  buffer : d.io.readBuffer.getD [] = []
  soft : ∀ e ∈ d.io.env, e.Soft
  header : ∀ h, d.headerInProgress = some h → h.length = 12
  bytes : d.headerInProgress.getD [] ++ d.io.future = encodeFrames fs

/-- The bytes of unfinished frames the reader has or is sure to get. -/
def stock (d : Driver P) : ℕ := (d.headerInProgress.getD []).length + d.io.supply

section Inbound
variable {d : Driver P} {fs : List Frame}

/-- `recvall` at the level of the driver. -/
theorem recvall_arrives (length : ℕ) (h : d.Inbound fs) :
    wp (socket (Transport.recvall length none)) (fun o d' => ∃ io, d' = { d with io } ∧
      match o with
      | .ok r => r.length = length ∧ Transport.Arrived d.io io r
      | .error _ => False
      | .running => d.io.supply < length) d := by
  rw [socket, wp_zoom]
  refine (Transport.recvall_patient length h.isOpen h.buffer h.soft).mono ?_
  rintro (r | e | _) io hpatient
  · obtain ⟨hlen, got, hr, harrived⟩ := hpatient
    rw [List.nil_append] at hr
    subst hr
    exact ⟨io, rfl, hlen, harrived⟩
  · exact hpatient.elim
  · exact ⟨io, rfl, hpatient⟩

theorem readHeader_inbound (h : d.Inbound fs) :
    wp (readHeader none) (fun o d₁ => match o with
      | .ok (token, length) => ∃ f rest io, fs = f :: rest ∧ token = f.token ∧
          length = f.payload.length ∧ d₁.Inbound fs ∧
          d₁ = { d with io, headerInProgress := some (packHeader f.token f.payload.length) } ∧
          d.stock ≤ d₁.stock ∧ d₁.turns ≤ d.turns
      | .error _ => False
      | .running => d.stock < 12) d := by
  unfold readHeader
  rw [wp_bind, wp_read, bindPost_ok]
  have hbytes := h.bytes
  cases hhead : d.headerInProgress with
  | some header =>
    rw [hhead, Option.getD_some] at hbytes
    obtain ⟨f, rest, hfs, hheader, -⟩ := encodeFrames_header (h.header _ hhead) hbytes
    subst hheader
    simp only [parseHeader_pack, wp_ofExcept_ok]
    exact ⟨f, rest, d.io, hfs, rfl, rfl, h, by rw [← hhead], le_rfl, le_rfl⟩
  | none =>
    rw [hhead, Option.getD_none, List.nil_append] at hbytes
    rw [wp_bind]
    refine (recvall_arrives 12 h).mono ?_
    rintro (r | e | _) d₁ ⟨io, rfl, hpost⟩
    · obtain ⟨hlen, harrived⟩ := hpost
      have hcut : r ++ io.future = encodeFrames fs := harrived.future.trans hbytes
      obtain ⟨f, rest, hfs, hheader, -⟩ := encodeFrames_header hlen hcut
      have hless := harrived.shorter (by rintro rfl; simp at hlen)
      have hsupply := harrived.supply
      rw [bindPost_ok, wp_bind, wp_modify, bindPost_ok]
      subst hheader
      rw [parseHeader_pack, wp_ofExcept_ok]
      refine ⟨f, rest, io, hfs, rfl, rfl, ⟨harrived.isOpen.trans h.isOpen, ?_, ?_, ?_, hcut⟩, rfl, ?_, ?_⟩
      · rw [harrived.buffer]
        exact h.buffer
      · exact fun e he => h.soft e (harrived.env.subset he)
      · rintro _ ⟨⟩
        exact hlen
      · simp only [stock, hhead, Option.getD_none, Option.getD_some, List.length_nil]
        omega
      · simp only [turns, hhead, if_true, reduceCtorEq, if_false]
        omega
    · exact hpost
    · show d.stock < 12
      simp only [stock, hhead, Option.getD_none, List.length_nil]
      omega

/-- The `try` block takes the next frame, unless the schedule is too short for it. -/
theorem readFrame_inbound (h : d.Inbound fs) :
    wp (readFrame none) (fun o d' => match o with
      | .ok (token, buf) => ∃ f rest io, fs = f :: rest ∧ token = f.token ∧ buf = f.payload ∧
          d'.Inbound rest ∧ d' = { d with io, headerInProgress := none } ∧
          d.stock ≤ d'.stock + f.encode.length ∧ d'.turns < d.turns
      | .error _ => False
      | .running => ∀ f rest, fs = f :: rest → d.stock < f.encode.length) d := by
  have hlength : ∀ f : Frame, f.encode.length = 12 + f.payload.length := by
    intro f
    rw [Frame.encode, List.length_append, length_packHeader]
  unfold readFrame
  rw [wp_bind]
  refine (readHeader_inbound h).mono ?_
  rintro (⟨token, length⟩ | e | _) d₁ hpost
  · obtain ⟨f, rest, io, hfs, rfl, rfl, hin, heq, hstock, hturns⟩ := hpost
    have hhead : d₁.headerInProgress = some (packHeader f.token f.payload.length) := by rw [heq]
    have hstock₁ : d₁.stock = 12 + d₁.io.supply := by
      simp only [stock, hhead, Option.getD_some, length_packHeader]
    have hbytes := hin.bytes
    rw [hhead, Option.getD_some, hfs, encodeFrames_cons, List.append_cancel_left_eq] at hbytes
    rw [bindPost_ok, wp_bind]
    refine (recvall_arrives _ hin).mono ?_
    rintro (r | e | _) d₂ ⟨io', rfl, hpost'⟩
    · obtain ⟨hlen, harrived⟩ := hpost'
      have hcut := harrived.future.trans hbytes
      obtain ⟨hr, hfuture⟩ := List.append_inj hcut hlen
      have hle := harrived.env.length_le
      have hsupply := harrived.supply
      rw [bindPost_ok, wp_bind, wp_modify, bindPost_ok, wp_pure]
      refine ⟨f, rest, io', hfs, rfl, hr, ⟨harrived.isOpen.trans hin.isOpen, ?_, ?_, by simp, ?_⟩,
        by rw [heq], ?_, ?_⟩
      · rw [harrived.buffer]
        exact hin.buffer
      · exact fun e he => hin.soft e (harrived.env.subset he)
      · simpa using hfuture
      · rw [hlength]
        show d.stock ≤ 0 + io'.supply + _
        omega
      · refine lt_of_lt_of_le ?_ hturns
        simp only [turns, hhead, if_true, reduceCtorEq, if_false]
        omega
    · exact hpost'
    · intro f' rest' hfs'
      obtain rfl : f = f' := by
        rw [hfs] at hfs'
        exact (List.cons.inj hfs').1
      rw [hlength]
      omega
  · exact hpost
  · intro f rest _
    have hless : d.stock < 12 := hpost
    rw [hlength]
    omega

end Inbound
end Driver

/-! ### What a conforming server will have answered -/

namespace ServerState
variable {default : Decoder V} {proper : Message V → Prop} [DecidablePred proper]

theorem answer_owed {s : ServerState V} {f : Frame} (howed : s.told f.token < s.asked f.token)
    (hdec : s.Decodes default proper f.token f.payload) :
    s.answer default proper (f.token, f.payload) =
      ({ s with answers := s.answers ++ [f] }, encodeFrames [f]) := by
  have hfits : -(2 ^ 63) ≤ f.token ∧ f.token < 2 ^ 63 ∧ f.payload.length < 2 ^ 32 :=
    ⟨f.token_ge, f.token_lt, f.length_lt⟩
  unfold answer
  rw [dif_pos hfits, if_pos ⟨howed, hdec⟩]

variable (default proper) in
theorem answer_new (s : ServerState V) (a : ℤ × Bytes) :
    ∃ new, (s.answer default proper a).1.answers = s.answers ++ new ∧
      (s.answer default proper a).2 = encodeFrames new ∧ ∀ f ∈ new, a = (f.token, f.payload) := by
  unfold answer
  split_ifs
  · refine ⟨_, rfl, rfl, ?_⟩
    intro f hf
    rw [List.mem_singleton.mp hf]
  · exact ⟨[], by simp⟩
  · exact ⟨[], by simp⟩

variable (default proper) in
/-- Every answer of the server is one of its actions. -/
theorem acts_new (as : List (ℤ × Bytes)) (s : ServerState V) :
    ∃ new, ((conformingServer default proper).acts s as).1.answers = s.answers ++ new ∧
      ((conformingServer default proper).acts s as).2 = encodeFrames new ∧
      ∀ f ∈ new, (f.token, f.payload) ∈ as := by
  induction as generalizing s with
  | nil => exact ⟨[], by simp [Peer.acts]⟩
  | cons a as ih =>
    obtain ⟨new, hanswers, hbytes, hfrom⟩ := answer_new default proper s a
    obtain ⟨later, hanswers', hbytes', hfrom'⟩ := ih (s.answer default proper a).1
    refine ⟨new ++ later, ?_, ?_, ?_⟩
    · rw [← List.append_assoc, ← hanswers]
      exact hanswers'
    · rw [encodeFrames_append, ← hbytes, ← hbytes']
      rfl
    · intro f hf
      rcases List.mem_append.mp hf with hf | hf
      · rw [hfrom f hf]
        exact List.mem_cons_self
      · exact List.mem_cons_of_mem _ (hfrom' f hf)

/-- The one answer a token is owed has been given once the server was to give it. -/
theorem acts_owed (as : List (ℤ × Bytes)) {s : ServerState V} {f : Frame} {new : List Frame}
    (htold : s.told f.token = 0) (hasked : 0 < s.asked f.token)
    (hdec : s.Decodes default proper f.token f.payload)
    (hnew : ((conformingServer default proper).acts s (as ++ [(f.token, f.payload)])).1.answers =
      s.answers ++ new) : ∃ g ∈ new, g.token = f.token := by
  induction as generalizing s new with
  | nil =>
    have hone : ((conformingServer default proper).acts s [(f.token, f.payload)]).1.answers =
        s.answers ++ [f] := congrArg (fun r => r.1.answers) (answer_owed (by omega) hdec)
    have heq : s.answers ++ new = s.answers ++ [f] := hnew.symm.trans hone
    rw [List.append_cancel_left heq]
    exact ⟨f, List.mem_singleton_self f, rfl⟩
  | cons a as ih =>
    let s' : ServerState V := (s.answer default proper a).1
    have hreq : s'.requests = s.requests := s.answer_requests a
    obtain ⟨first, hfirst, -⟩ := answer_new default proper s a
    obtain ⟨later, hlater, -⟩ := acts_new default proper (as ++ [(f.token, f.payload)]) s'
    have hsplit : new = first ++ later := by
      have heq : s.answers ++ new = s.answers ++ (first ++ later) := by
        rw [← List.append_assoc, ← hfirst]
        exact hnew.symm.trans hlater
      exact List.append_cancel_left heq
    rw [hsplit]
    by_cases hex : ∃ g ∈ first, g.token = f.token
    · obtain ⟨g, hg, htoken⟩ := hex
      exact ⟨g, List.mem_append_left _ hg, htoken⟩
    · have hnone : first.countP (·.token = f.token) = 0 := by
        rw [List.countP_eq_zero]
        intro g hg htoken
        exact hex ⟨g, hg, by simpa using htoken⟩
      have htold' : s'.told f.token = 0 := by
        rw [told, hfirst, List.countP_append, hnone]
        exact htold
      have hasked' : 0 < s'.asked f.token := by
        rw [asked, hreq]
        exact hasked
      have hdec' : s'.Decodes default proper f.token f.payload := by
        rw [Decodes, decoder, hreq]
        exact hdec
      obtain ⟨g, hg, htoken⟩ := ih htold' hasked' hdec' hlater
      exact ⟨g, List.mem_append_right _ hg, htoken⟩

end ServerState
end RethinkDB.Net
