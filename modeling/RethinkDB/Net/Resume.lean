import RethinkDB.Net.Frames

/-! Resumable reading over whole sessions: whatever the client does between its reads, and
wherever timeouts strike, the frames handed out are the frames of the stream in order. -/
namespace RethinkDB.Net
open RethinkDB.Lib Prog

variable {V : Type} {P : Peer V}

namespace Driver

/-- Work that reads nothing: the reader's position and the stream stay as they are, and
nothing reopens a closed socket. -/
structure Quiet (F : Framed P) (d d' : Driver P) : Prop where
  handed : d'.handed = d.handed
  frames : F.frames d'.io.peer = F.frames d.io.peer
  header : d'.headerInProgress = d.headerInProgress
  buffer : d'.io.readBuffer = d.io.readBuffer
  incoming : d'.io.incoming = d.io.incoming
  env : d'.io.env = d.io.env
  isOpen : d'.io.isOpen = true → d.io.isOpen = true

instance (F : Framed P) : Std.Refl (Quiet F) :=
  ⟨fun _ => ⟨rfl, rfl, rfl, rfl, rfl, rfl, fun h => h⟩⟩

theorem Quiet.trans {F : Framed P} {d e f : Driver P} (h : Quiet F d e) (h' : Quiet F e f) :
    Quiet F d f :=
  ⟨h'.handed.trans h.handed, h'.frames.trans h.frames, h'.header.trans h.header,
    h'.buffer.trans h.buffer, h'.incoming.trans h.incoming, h'.env.trans h.env,
    fun ho => h.isOpen (h'.isOpen ho)⟩

instance (F : Framed P) : IsTrans (Driver P) (Quiet F) := ⟨fun _ _ _ => Quiet.trans⟩

section Quiet
variable (F : Framed P)

theorem cursor_quiet (id : ℕ) : Respects (Quiet F) (cursor id : Call P (Cursor V)) := by
  intro d
  rw [wp_cursor]
  exact ⟨fun c _ => ⟨by simp, Std.Refl.refl d⟩, fun _ => ⟨by simp, Std.Refl.refl d⟩⟩

theorem modifyCursor_quiet (id : ℕ) (f : Cursor V → Cursor V) :
    Respects (Quiet F) (modifyCursor id f : Call P Unit) :=
  respects_modify fun _ => ⟨rfl, rfl, rfl, rfl, rfl, rfl, fun h => h⟩

/-- What `sendall`, which always comes back, leaves alone. -/
structure SendKeeps (t : Transport P) (o : Outcome (Exn V) Unit) (t' : Transport P) : Prop where
  back : o ≠ .running
  peer : t'.peer = t.peer
  buffer : t'.readBuffer = t.readBuffer
  incoming : t'.incoming = t.incoming
  env : t'.env = t.env
  isOpen : t'.isOpen = true → t.isOpen = true

theorem sendLoop_keeps (sends : List SendOutcome) (data : Bytes) (t : Transport P) :
    SendKeeps t (Transport.sendLoop sends data t).1 (Transport.sendLoop sends data t).2 := by
  induction sends generalizing data t with
  | nil => exact ⟨by simp [Transport.sendLoop], rfl, rfl, rfl, rfl, fun h => h⟩
  | cons o sends ih =>
    by_cases h : data = []
    · simp only [Transport.sendLoop, if_pos h]
      exact ⟨by simp, rfl, rfl, rfl, rfl, fun h => h⟩
    · simp only [Transport.sendLoop, if_neg h]
      cases o with
      | accept k =>
        have hrest := ih (data.drop (k + 1)) { t with sent := t.sent ++ data.take (k + 1) }
        exact ⟨hrest.back, hrest.peer, hrest.buffer, hrest.incoming, hrest.env, hrest.isOpen⟩
      | eintr => exact ih data t
      | connReset => exact ⟨by simp, rfl, rfl, rfl, rfl, by simp [Transport.close]⟩
      | osError text => exact ⟨by simp, rfl, rfl, rfl, rfl, by simp [Transport.close]⟩
      | exception text => exact ⟨by simp, rfl, rfl, rfl, rfl, by simp [Transport.close]⟩
      | interrupt accepted text => exact ⟨by simp, rfl, rfl, rfl, rfl, by simp [Transport.close]⟩

theorem sendall_keeps (data : Bytes) (t : Transport P) :
    SendKeeps t (Transport.sendall data t).1 (Transport.sendall data t).2 := by
  unfold Transport.sendall
  split_ifs
  · exact ⟨by simp, rfl, rfl, rfl, rfl, fun h => h⟩
  · exact sendLoop_keeps ..
  · exact ⟨by simp, rfl, rfl, rfl, rfl, fun h => h⟩

theorem sendQuery_quiet (query : Query V) : Respects (Quiet F) (sendQuery query : Call P Unit) := by
  refine (respects_ofExcept _).bind fun message => Respects.bind (fun d => ?_) fun _ =>
    respects_modify fun _ => ⟨rfl, F.receive _ _, rfl, rfl, rfl, rfl, fun h => h⟩
  have h := sendall_keeps message d.io
  exact ⟨h.back, rfl, congrArg F.frames h.peer, rfl, h.buffer, h.incoming, h.env, h.isOpen⟩

theorem checkOpen_quiet : Respects (Quiet F) (checkOpen : Call P Unit) :=
  (respects_read _).bind fun _ => .ite (respects_pure _) (respects_throw _)

theorem termless_quiet (type : QueryType) (token : ℤ) :
    Respects (Quiet F) (termless type token : Call P (Query V)) :=
  (respects_read _).bind fun _ => respects_pure _

theorem cursorRequest_quiet (type : QueryType) (id : ℕ) :
    Respects (Quiet F) (cursorRequest type id : Call P Unit) :=
  (checkOpen_quiet F).bind fun _ => (cursor_quiet F id).bind fun _ =>
    (termless_quiet F _ _).bind fun _ => sendQuery_quiet F _

theorem maybeFetchBatch_quiet (id : ℕ) :
    Respects (Quiet F) (maybeFetchBatch id : Call P Unit) :=
  (cursor_quiet F id).bind fun _ => .ite
    ((modifyCursor_quiet F id _).bind fun _ => cursorRequest_quiet F _ id) (respects_pure _)

theorem uncache_quiet (token : ℤ) : Respects (Quiet F) (uncache token : Call P Unit) := by
  intro d
  rw [wp_uncache]
  exact ⟨fun _ => ⟨by simp, rfl, rfl, rfl, rfl, rfl, rfl, fun h => h⟩,
    fun _ => ⟨by simp, Std.Refl.refl d⟩⟩

theorem storeResponse_quiet (id : ℕ) (res : Response V) :
    Respects (Quiet F) (storeResponse id res : Call P Unit) := by
  refine (cursor_quiet F id).bind fun c => ?_
  cases c.store res with
  | ok c => exact modifyCursor_quiet F id _
  | error e => exact (modifyCursor_quiet F id _).bind fun _ => respects_throw _

theorem extendInternal_quiet (id : ℕ) (res : Response V) :
    Respects (Quiet F) (extendInternal id res : Call P Unit) :=
  (storeResponse_quiet F id res).bind fun _ => (cursor_quiet F id).bind fun _ =>
    .ite (uncache_quiet F _) (respects_pure _)

theorem extend_quiet (id : ℕ) (resBuf : Bytes) :
    Respects (Quiet F) (extend id resBuf : Call P Unit) :=
  (modifyCursor_quiet F id _).bind fun _ => (maybeFetchBatch_quiet F id).bind fun _ =>
    (cursor_quiet F id).bind fun _ => (respects_ofExcept _).bind fun _ => extendInternal_quiet F id _

theorem cursorError_quiet (message : String) (id : ℕ) :
    Respects (Quiet F) (cursorError message id : Call P Unit) :=
  (cursor_quiet F id).bind fun _ => .ite
    ((modifyCursor_quiet F id _).bind fun _ => (respects_read _).bind fun _ => extend_quiet F id _)
    (respects_pure _)

theorem newCursor_quiet (query : Query V) (first : Response V) :
    Respects (Quiet F) (newCursor query first : Call P ℕ) :=
  (respects_read _).bind fun _ => Respects.bind
    (respects_modify fun _ => ⟨rfl, rfl, rfl, rfl, rfl, rfl, fun h => h⟩) fun _ =>
      (maybeFetchBatch_quiet F _).bind fun _ => (extendInternal_quiet F _ _).bind fun _ =>
        respects_pure _

end Quiet

/-! ### Conservation -/

def pairs (fs : List Frame) : List (ℤ × Bytes) := fs.map fun f => (f.token, f.payload)

def handedPairs (d : Driver P) : List (ℤ × Bytes) := d.handed.map fun h => (h.1, h.2.1)

section Conserved
variable (F : Framed P)

/-- The frames handed out so far are the first ones of the stream. -/
def HandedOut (d : Driver P) (rest : List Frame) : Prop :=
  ∃ done, F.frames d.io.peer = done ++ rest ∧ d.handedPairs = pairs done

/-- Between calls: on an open socket the reader stands right behind what was handed out. -/
structure Conserved (d : Driver P) : Prop where
  position : ∃ rest, d.HandedOut F rest ∧ (d.io.isOpen = true → d.InFlight rest)
  soft : ∀ e ∈ d.io.env, e.Soft

def Waiting (d : Driver P) : Prop := (∃ rest, d.HandedOut F rest) ∧ d.io.env = []

variable {F} {d d' : Driver P}

theorem HandedOut.quiet {rest : List Frame} (hq : Quiet F d d') (h : d.HandedOut F rest) :
    d'.HandedOut F rest := by
  obtain ⟨done, hf, hh⟩ := h
  exact ⟨done, hq.frames.trans hf, by rw [handedPairs, hq.handed]; exact hh⟩

theorem Conserved.quiet (hq : Quiet F d d') (h : d.Conserved F) : d'.Conserved F := by
  obtain ⟨rest, hout, hflight⟩ := h.position
  refine ⟨⟨rest, hout.quiet hq, fun ho => ?_⟩, by rw [hq.env]; exact h.soft⟩
  have hf := hflight (hq.isOpen ho)
  exact ⟨by rw [hq.buffer]; exact hf.buffer, by rw [hq.header]; exact hf.header,
    by rw [hq.header, hq.incoming]; exact hf.bytes⟩

theorem maintains_of_quiet {α : Type} {m : Call P α} (hm : Respects (Quiet F) m) :
    Maintains (Conserved F) (Waiting F) m :=
  hm.maintains fun _ _ hq h => h.quiet hq

/-- A closed socket gives no frame: the read raises and moves nothing. -/
theorem readFrame_closed (deadline : Option ℤ) (hopen : d.io.isOpen = false) :
    wp (readFrame deadline) (fun o d' => (∃ e, o = .error e) ∧ Quiet F d d') d := by
  have hread : ∀ length, wp (socket (Transport.recvall length deadline))
      (fun o d' => (∃ e, o = .error e) ∧ Quiet F d d') d := by
    intro length
    rw [socket, wp_zoom]
    refine (Transport.recvall_closed length deadline hopen).mono ?_
    rintro o t ⟨rfl, ht⟩
    rw [ht]
    exact ⟨⟨_, rfl⟩, rfl, rfl, rfl, rfl, rfl, rfl, fun h => h⟩
  unfold readFrame readHeader
  rw [wp_bind, wp_bind, wp_read, bindPost_ok]
  cases d.headerInProgress with
  | none =>
    rw [wp_bind]
    refine (hread 12).mono ?_
    rintro o d' ⟨⟨e, rfl⟩, hq⟩
    exact ⟨⟨e, rfl⟩, hq⟩
  | some header =>
    simp only
    cases parseHeader header with
    | error e =>
      rw [wp_ofExcept_error]
      exact ⟨⟨e, rfl⟩, Std.Refl.refl d⟩
    | ok h =>
      rw [wp_ofExcept_ok, bindPost_ok, wp_bind]
      refine (hread h.2).mono ?_
      rintro o d' ⟨⟨e, rfl⟩, hq⟩
      exact ⟨⟨e, rfl⟩, hq⟩

/-- A frame has been taken off the wire and not been handed to anyone yet. -/
structure Taken (F : Framed P) (d : Driver P) (token : ℤ) (resBuf : Bytes) : Prop where
  position : ∃ f rest, d.HandedOut F (f :: rest) ∧ token = f.token ∧ resBuf = f.payload ∧
    d.InFlight rest
  soft : ∀ e ∈ d.io.env, e.Soft

theorem Taken.hand {token : ℤ} {resBuf : Bytes} (h : d.Taken F token resBuf)
    (recipient : Recipient) :
    Conserved F { d with handed := d.handed ++ [(token, resBuf, recipient)] } := by
  obtain ⟨f, rest, ⟨done, hf, hh⟩, rfl, rfl, hflight⟩ := h.position
  refine ⟨⟨rest, ⟨done ++ [f], ?_, ?_⟩, fun _ => ⟨hflight.buffer, hflight.header, hflight.bytes⟩⟩,
    h.soft⟩
  · rw [List.append_assoc]
    exact hf
  · rw [handedPairs, List.map_append, pairs, List.map_append]
    exact congrArg (· ++ [(f.token, f.payload)]) hh

/-- How many turns of a reading loop the schedule can still feed, counting the last. -/
def turns (d : Driver P) : ℕ := d.io.env.length + if d.headerInProgress = none then 1 else 2

/-- A read that came back has used up a turn. -/
structure Progressed (d d' : Driver P) : Prop where
  header : d'.headerInProgress = none
  turns : d'.turns < d.turns

theorem readFrame_taken (deadline : Option ℤ) (h : d.Conserved F) :
    wp (readFrame deadline) (fun o d' => match o with
      | .ok (token, buf) => d'.Taken F token buf ∧ Progressed d d'
      | .error _ => d'.Conserved F
      | .running => d'.Waiting F) d := by
  obtain ⟨rest, ⟨done, hf, hh⟩, hflight⟩ := h.position
  by_cases hopen : d.io.isOpen = true
  · refine (readFrame_spec F deadline hopen h.soft (hflight hopen)).mono ?_
    rintro (⟨token, buf⟩ | e | _) d' ⟨fs', hreads, hpost⟩
    · obtain ⟨f, rest', hfs, htoken, hbuf, hflight', hhead, hless⟩ := hpost
      subst hfs
      have hhand : d'.handedPairs = pairs done := by rw [hreads.eq]; exact hh
      refine ⟨⟨⟨f, rest', ⟨done, hreads.frames done hf, hhand⟩, htoken, hbuf, hflight'⟩,
        fun e he => h.soft e (hreads.env.subset he)⟩, hhead, ?_⟩
      have hlen := hreads.env.length_le
      unfold turns
      split_ifs with hnone
      · have := hless hnone
        omega
      · omega
    · have hhand : d'.handedPairs = pairs done := by rw [hreads.eq]; exact hh
      exact ⟨⟨fs', ⟨done, hreads.frames done hf, hhand⟩, fun _ => hpost.2.2⟩,
        fun e he => h.soft e (hreads.env.subset he)⟩
    · have hhand : d'.handedPairs = pairs done := by rw [hreads.eq]; exact hh
      exact ⟨⟨fs', done, hreads.frames done hf, hhand⟩, hpost⟩
  · refine (readFrame_closed (F := F) deadline (by simpa using hopen)).mono ?_
    rintro o d' ⟨⟨e, rfl⟩, hq⟩
    exact h.quiet hq

theorem close_conserved : Maintains (Conserved F) (Waiting F) (close : Call P Unit) := by
  refine Maintains.bind (maintains_of_quiet (respects_modify fun _ =>
    ⟨rfl, rfl, rfl, rfl, rfl, rfl, fun h => h⟩)) fun _ => Maintains.bind (maintains_read _)
      fun cursors => Maintains.bind (maintains_of_quiet (.forEach (cursorError_quiet F _) cursors))
        fun _ => ?_
  intro d h
  obtain ⟨rest, hout, -⟩ := h.position
  rw [wp_modify]
  exact ⟨by simp, fun _ => ⟨⟨rest, hout, by simp [Transport.close]⟩, h.soft⟩⟩

/-- The induction is on the turns left: each frame handed out uses one up. -/
theorem readLoop_conserved (query : Query V) (deadline : Option ℤ) (n : ℕ) (hn : d.turns ≤ n)
    (h : d.Conserved F) :
    wp (readLoop query deadline n) (fun o d' => match o with
      | .ok _ => d'.Conserved F ∧ Progressed d d'
      | .error _ => d'.Conserved F
      | .running => d'.Waiting F) d := by
  induction n generalizing d with
  | zero =>
    unfold turns at hn
    split_ifs at hn <;> omega
  | succ n ih =>
    unfold readLoop
    rw [wp_bind]
    refine (readFrame_taken deadline h).mono ?_
    rintro (⟨token, buf⟩ | e | _) d₁ hpost
    · obtain ⟨htaken, hprog⟩ := hpost
      have hnext : ∀ d₂ : Driver P, d₂.Conserved F → d₂.headerInProgress = d₁.headerInProgress →
          d₂.io.env = d₁.io.env →
          Progressed d d₂ ∧ wp (readLoop query deadline n) (fun o d' => match o with
            | .ok _ => d'.Conserved F ∧ Progressed d d'
            | .error _ => d'.Conserved F
            | .running => d'.Waiting F) d₂ := by
        intro d₂ h₂ hhead henv
        have hturns : d₂.turns = d₁.turns := by rw [turns, turns, hhead, henv]
        have hprog₂ : Progressed d d₂ := ⟨hhead.trans hprog.header, hturns ▸ hprog.turns⟩
        have hlt := hprog₂.turns
        refine ⟨hprog₂, (ih (by omega) h₂).mono ?_⟩
        rintro (r | e | _) d' hpost
        · exact ⟨hpost.1, hpost.2.header, hpost.2.turns.trans hlt⟩
        · exact hpost
        · exact hpost
      rw [bindPost_ok, wp_bind, wp_read, bindPost_ok]
      cases d₁.cursorCache.lookup token with
      | some id =>
        rw [wp_bind, hand, wp_modify, bindPost_ok]
        have hc := htaken.hand (.cursor id)
        refine (extend_quiet F id buf).wp_bind (fun e d₂ hq => hc.quiet hq) fun _ d₂ hq => ?_
        obtain ⟨hprog₂, hloop⟩ := hnext d₂ (hc.quiet hq) hq.header hq.env
        rw [wp_ite]
        exact ⟨fun _ => ⟨hc.quiet hq, hprog₂⟩, fun _ => hloop⟩
      | none =>
        rw [wp_ite]
        refine ⟨fun _ => ?_, fun _ => ?_⟩
        · rw [wp_bind, hand, wp_modify, bindPost_ok, wp_bind, wp_read, bindPost_ok, wp_bind]
          have hc := htaken.hand .query
          cases Response.ofJson token buf _ with
          | ok res =>
            rw [wp_ofExcept_ok, bindPost_ok, wp_pure]
            exact ⟨hc, (hnext _ hc rfl rfl).1⟩
          | error e =>
            rw [wp_ofExcept_error]
            exact hc
        · rw [wp_bind, hand, wp_modify, bindPost_ok, wp_bind, wp_read, bindPost_ok, wp_ite]
          have hc := htaken.hand .nobody
          refine ⟨fun _ => (hnext _ hc rfl rfl).2, fun _ => ?_⟩
          rw [wp_bind]
          refine (close_conserved _ hc).mono ?_
          rintro (u | e | _) d₂ ⟨hrun, hover⟩
          · exact hover (by simp)
          · exact hover (by simp)
          · exact hrun rfl
    · exact hpost
    · exact hpost

theorem readResponse_conserved (query : Query V) (deadline : Option ℤ) (h : d.Conserved F) :
    wp (readResponse query deadline) (fun o d' => match o with
      | .ok _ => d'.Conserved F ∧ Progressed d d'
      | .error _ => d'.Conserved F
      | .running => d'.Waiting F) d := by
  unfold readResponse
  rw [wp_bind, wp_read, bindPost_ok]
  refine readLoop_conserved query deadline _ ?_ h
  unfold turns
  split <;> omega

theorem readResponse_maintains (query : Query V) (deadline : Option ℤ) :
    Maintains (Conserved F) (Waiting F) (readResponse query deadline : Call P _) := by
  intro d h
  refine (readResponse_conserved query deadline h).mono ?_
  rintro (r | e | _) d' hpost
  · exact ⟨by simp, fun _ => hpost.1⟩
  · exact ⟨by simp, fun _ => hpost⟩
  · exact ⟨fun _ => hpost, by simp⟩

theorem nextLoop_conserved (id : ℕ) (deadline : Option ℤ) (n : ℕ) (hn : d.turns < n)
    (h : d.Conserved F) :
    wp (nextLoop id deadline n) (fun o d' =>
      (o = .running → d'.Waiting F) ∧ (o ≠ .running → d'.Conserved F)) d := by
  induction n generalizing d with
  | zero => omega
  | succ n ih =>
    unfold nextLoop
    have hover : ∀ (e : Exn V) (d' : Driver P), Quiet F d d' →
        ((.error e : Outcome (Exn V) V) = .running → d'.Waiting F) ∧
          ((.error e : Outcome (Exn V) V) ≠ .running → d'.Conserved F) :=
      fun e d' hq => ⟨by simp, fun _ => h.quiet hq⟩
    refine (cursor_quiet F id).wp_bind hover fun c d₁ hq₁ => ?_
    cases c.items with
    | cons v vs =>
      exact Maintains.bind (maintains_of_quiet (modifyCursor_quiet F id _))
        (fun _ => maintains_pure _) _ (h.quiet hq₁)
    | nil =>
      refine (maybeFetchBatch_quiet F id).wp_bind (fun e d' hq => hover e d' (hq₁.trans hq))
        fun _ d₂ hq₂ => ?_
      refine (cursor_quiet F id).wp_bind (fun e d' hq => hover e d' (hq₁.trans (hq₂.trans hq)))
        fun c' d₃ hq₃ => ?_
      have hq : Quiet F d d₃ := hq₁.trans (hq₂.trans hq₃)
      have hturns : d₃.turns = d.turns := by rw [turns, turns, hq.header, hq.env]
      cases c'.error with
      | some e => exact hover e d₃ hq
      | none =>
        rw [wp_bind]
        refine (readResponse_conserved c.query deadline (h.quiet hq)).mono ?_
        rintro (r | e | _) d' hpost
        · have hlt := hpost.2.turns
          exact ih (by omega) hpost.1
        · exact ⟨by simp, fun _ => hpost⟩
        · exact ⟨fun _ => hpost, by simp⟩

theorem time_quiet : Respects (Quiet F) (time : Call P ℤ) := by
  intro d
  exact ⟨by simp [time, socket, zoom], rfl, rfl, rfl, rfl, rfl, rfl, fun h => h⟩

theorem getNext_maintains (id : ℕ) (timeout : Option ℤ) :
    Maintains (Conserved F) (Waiting F) (getNext id timeout : Call P V) := by
  have hloop : ∀ deadline, Maintains (Conserved F) (Waiting F)
      (do nextLoop id deadline (← Prog.read fun d => d.io.env.length + 3) : Call P V) := by
    intro deadline d h
    rw [wp_bind, wp_read, bindPost_ok]
    refine nextLoop_conserved id deadline _ ?_ h
    unfold turns
    split <;> omega
  cases timeout with
  | none => exact hloop none
  | some timeout => exact Maintains.bind (maintains_of_quiet time_quiet) fun now => hloop _

theorem replyTo_quiet (query : Query V) (res : Response V) :
    Respects (Quiet F) (replyTo query res : Call P (Reply V)) := by
  unfold replyTo
  split
  · exact (respects_ofExcept _).bind fun _ => respects_pure _
  · exact (newCursor_quiet F _ _).bind fun _ => respects_pure _
  · exact (newCursor_quiet F _ _).bind fun _ => respects_pure _
  · exact respects_pure _
  · exact (respects_ofExcept _).bind fun _ => respects_pure _
  · exact (respects_ofExcept _).bind fun _ => respects_throw _

theorem runQuery_maintains (query : Query V) (noreply : Bool) :
    Maintains (Conserved F) (Waiting F) (runQuery query noreply : Call P (Reply V)) := by
  refine Maintains.bind (maintains_of_quiet (sendQuery_quiet F query)) fun _ => .ite (maintains_pure _) ?_
  refine (readResponse_maintains query none).bind fun r => ?_
  cases r with
  | none => exact maintains_throw _
  | some res => exact maintains_of_quiet (replyTo_quiet query res)

theorem newToken_quiet : Respects (Quiet F) (newToken : Call P ℤ) :=
  (respects_read _).bind fun _ => Respects.bind
    (respects_modify fun _ => ⟨rfl, rfl, rfl, rfl, rfl, rfl, fun h => h⟩) fun _ => respects_pure _

theorem cursorClose_quiet (id : ℕ) : Respects (Quiet F) (cursorClose id : Call P Unit) :=
  (cursor_quiet F id).bind fun _ => .ite
    ((modifyCursor_quiet F id _).bind fun _ => (respects_read _).bind fun _ => .ite
      ((modifyCursor_quiet F id _).bind fun _ => cursorRequest_quiet F _ id) (respects_pure _))
    (respects_pure _)

/-- Every operation of a program keeps the reader's position. -/
theorem call_maintains (op : Op V) : Maintains (Conserved F) (Waiting F) (op.call : Call P (Reply V)) := by
  have hcontrol : ∀ type, Maintains (Conserved F) (Waiting F) (control type : Call P (Reply V)) :=
    fun type => (maintains_of_quiet (checkOpen_quiet F)).bind fun _ =>
      (maintains_of_quiet newToken_quiet).bind fun _ =>
        (maintains_of_quiet (termless_quiet F _ _)).bind fun _ => runQuery_maintains _ _
  cases op with
  | run term body jsonDecoder noreply =>
    exact (maintains_of_quiet (checkOpen_quiet F)).bind fun _ =>
      (maintains_of_quiet newToken_quiet).bind fun _ => runQuery_maintains _ _
  | next id wait =>
    exact Maintains.bind (Maintains.bind (maintains_ofExcept _) fun _ => getNext_maintains id _)
      fun _ => maintains_pure _
  | close id => exact (maintains_of_quiet (cursorClose_quiet id)).bind fun _ => maintains_pure _
  | noreplyWait => exact hcontrol _
  | server => exact hcontrol _

end Conserved

end Driver

/-! ### Sessions -/

/-- A use of the connection: a `_read_response` of any query under any deadline, or an
operation of a program, which may send, register cursors and read on its own. -/
inductive Use (V : Type) where
  | read (query : Query V) (deadline : Option ℤ)
  | op (op : Op V)

def Use.call : Use V → Call P Unit
  | .read query deadline => do
    let _ ← Driver.readResponse query deadline
    return ()
  | .op o => do
    let _ ← o.call
    return ()

namespace Driver

theorem use_maintains (F : Framed P) (use : Use V) :
    Maintains (Conserved F) (Waiting F) (use.call : Call P Unit) := by
  cases use with
  | read query deadline => exact (readResponse_maintains query deadline).bind fun _ => maintains_pure _
  | op op => exact (call_maintains op).bind fun _ => maintains_pure _

/-- The frames given to `_extend` or to `Response`. -/
def delivered (d : Driver P) : List (ℤ × Bytes) :=
  (d.handed.filter (·.2.2 ≠ .nobody)).map fun h => (h.1, h.2.1)

/-- Resumable frame reading: over any schedule of chunks, timeouts and interruptions the
frames handed out are the stream's in order; between calls the header in progress, the read
buffer, which is empty, and the unreceived bytes are exactly the rest of the stream. -/
theorem readResponse_frames (F : Framed P) (uses : List (Use V)) (d : Driver P)
    (hsoft : ∀ e ∈ d.io.env, e.Soft) (hfresh : d.handed = [])
    (hstart : d.InFlight (F.frames d.io.peer)) :
    let r := session (uses.map Use.call) d
    ∃ rest, r.2.handedPairs ++ pairs rest = pairs (F.frames r.2.io.peer) ∧
      ((∀ h ∈ r.2.handed, h.2.2 ≠ .nobody) →
        r.2.delivered ++ pairs rest = pairs (F.frames r.2.io.peer)) ∧
      (.running ∉ r.1 → r.2.io.isOpen = true → r.2.io.readBuffer.getD [] = [] ∧
        r.2.headerInProgress.getD [] ++ r.2.io.readBuffer.getD [] ++ r.2.io.incoming =
          encodeFrames rest) ∧
      (.running ∈ r.1 → r.2.io.env = []) := by
  intro r
  have hconserved : d.Conserved F :=
    ⟨⟨F.frames d.io.peer, ⟨[], rfl, by simp [handedPairs, hfresh, pairs]⟩, fun _ => hstart⟩, hsoft⟩
  have hcalls : ∀ m ∈ uses.map (Use.call (P := P)), Maintains (Conserved F) (Waiting F) m := by
    intro m hm
    obtain ⟨use, -, rfl⟩ := List.mem_map.mp hm
    exact use_maintains F use
  obtain ⟨hrun, hover⟩ := session_maintains hcalls hconserved
  have hpairs : ∀ rest, r.2.HandedOut F rest →
      r.2.handedPairs ++ pairs rest = pairs (F.frames r.2.io.peer) := by
    rintro rest ⟨done, hf, hh⟩
    rw [hh, hf, pairs, pairs, pairs, List.map_append]
  have hdelivered : (∀ h ∈ r.2.handed, h.2.2 ≠ .nobody) → r.2.delivered = r.2.handedPairs := by
    intro h
    rw [delivered, handedPairs, List.filter_eq_self.mpr (by simpa using h)]
  by_cases hr : .running ∈ r.1
  · obtain ⟨⟨rest, hout⟩, henv⟩ := hrun hr
    exact ⟨rest, hpairs rest hout, fun h => by rw [hdelivered h, hpairs rest hout],
      fun h => absurd hr h, fun _ => henv⟩
  · obtain ⟨rest, hout, hflight⟩ := (hover hr).position
    refine ⟨rest, hpairs rest hout, fun h => by rw [hdelivered h, hpairs rest hout],
      fun _ ho => ?_, fun h => absurd h hr⟩
    have hf := hflight ho
    rw [hf.buffer, List.append_nil]
    exact ⟨rfl, hf.bytes⟩

end Driver

/-- A server whose whole stream is on its way from the start. -/
def stream (V : Type) : Peer V where
  State := List Frame
  Act := Empty
  receive s _ := s
  act _ a := a.elim

def stream_framed : Framed (stream ℕ) where
  frames s := s
  act _ a := a.elim
  receive _ _ := rfl

/-- Two frames for queries 0 and 1, cut inside the first header and the first payload, with
a timeout between header and payload: query 1 takes over where query 0 gave up. -/
def interruptedRead : Driver (stream ℕ) where
  io :=
    { host := "localhost", port := 28015, isOpen := true, readBuffer := none, timeout := none
      incoming := encodeFrames [⟨0, [1, 2, 3], by decide, by decide, by decide⟩,
        ⟨1, [4], by decide, by decide, by decide⟩]
      peer := [⟨0, [1, 2, 3], by decide, by decide, by decide⟩,
        ⟨1, [4], by decide, by decide, by decide⟩]
      env := [.recv (.chunk 6), .recv (.chunk 100), .recv .timeout, .recv (.chunk 0),
        .recv .eintr, .recv (.chunk 100), .recv (.chunk 100), .recv (.chunk 100)]
      sends := [], sent := [], clock := fun n => n, ticks := 0 }
  numbering := ⟨fun _ => [], nil_length_lt, []⟩
  nextToken := 2
  jsonDecoder := fun _ => .ok ⟨.waitComplete, [], none, none, none⟩
  cursorCache := ∅
  headerInProgress := none
  closing := true
  cursors := []
  handed := []

def plainQuery (token : ℤ) : Query ℕ := ⟨.start, token, none, .ok [], none, false⟩

namespace Driver

theorem readResponse_frames_interrupted :
    let r := session ([.read (plainQuery 0) (some 10), .read (plainQuery 0) none,
      .read (plainQuery 1) (some 10)].map Use.call) interruptedRead
    ∃ rest, r.2.handedPairs ++ pairs rest = pairs (stream_framed.frames r.2.io.peer) ∧
      ((∀ h ∈ r.2.handed, h.2.2 ≠ .nobody) →
        r.2.delivered ++ pairs rest = pairs (stream_framed.frames r.2.io.peer)) ∧
      (.running ∉ r.1 → r.2.io.isOpen = true → r.2.io.readBuffer.getD [] = [] ∧
        r.2.headerInProgress.getD [] ++ r.2.io.readBuffer.getD [] ++ r.2.io.incoming =
          encodeFrames rest) ∧
      (.running ∈ r.1 → r.2.io.env = []) :=
  readResponse_frames stream_framed _ interruptedRead
    (by simp [interruptedRead, Event.Soft]) rfl ⟨rfl, by simp [interruptedRead], rfl⟩

end Driver
end RethinkDB.Net
