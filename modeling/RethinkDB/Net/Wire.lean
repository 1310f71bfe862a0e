import RethinkDB.Net.Socket

/-! What the blocking driver puts on the wire: whole frames, and after a failure at most the
beginning of one. -/
namespace RethinkDB.Net
open RethinkDB.Lib Prog

variable {V : Type} {P : Peer V}

/-- A query in its frame: the token is written unsigned, and fits the signed reading too. -/
structure Query.Carries (q : Query V) (f : Frame) : Prop where
  token : q.token = f.token
  token_nonneg : 0 ≤ q.token
  body : q.body = .ok f.payload

theorem Query.Carries.serialize {q : Query V} {f : Frame} (h : q.Carries f) :
    q.serialize = .ok f.encode := by
  have hlt := f.token_lt
  have htoken := h.token
  have hnonneg := h.token_nonneg
  have hwide : f.token % 256 ^ 8 = f.token := Int.emod_eq_of_lt (by omega) (by omega)
  unfold Query.serialize
  rw [h.body]
  simp only
  rw [if_pos ⟨hnonneg, by omega, f.length_lt⟩, h.token, Frame.encode, packHeader, unsigned, hwide]

theorem nonneg_of_carries {qs : List (Query V)} {fs : List Frame}
    (h : List.Forall₂ Query.Carries qs fs) : ∀ f ∈ fs, 0 ≤ f.token := by
  induction h with
  | nil => simp
  | cons hq _ ih =>
    rw [List.forall_mem_cons]
    exact ⟨hq.token ▸ hq.token_nonneg, ih⟩

/-- `struct.unpack("<QL", header)`. -/
def unpackQuery (header : Bytes) : Option (ℤ × ℕ) :=
  if header.length = 12 then some (decodeLE (header.take 8), decodeLE (header.drop 8)) else none

/-- Header, then as many bytes as it says, again and again; `fuel` bounds the number of frames. -/
def readFrames (unpack : Bytes → Option (ℤ × ℕ)) : ℕ → Bytes → Option (List (ℤ × Bytes))
  | 0, bytes => if bytes = [] then some [] else none
  | fuel + 1, bytes =>
    if bytes = [] then some []
    else do
      let (token, length) ← unpack (bytes.take 12)
      if (bytes.drop 12).length < length then none
      else
        let rest ← readFrames unpack fuel (bytes.drop (12 + length))
        some ((token, (bytes.drop 12).take length) :: rest)

theorem readFrames_encode {unpack : Bytes → Option (ℤ × ℕ)} {fs : List Frame}
    (hunpack : ∀ f ∈ fs, unpack (packHeader f.token f.payload.length) = some (f.token, f.payload.length))
    {fuel : ℕ} (hfuel : fs.length ≤ fuel) :
    readFrames unpack fuel (encodeFrames fs) = some (fs.map fun f => (f.token, f.payload)) := by
  induction fs generalizing fuel with
  | nil => cases fuel <;> rfl
  | cons f fs ih =>
    obtain ⟨fuel, rfl⟩ : ∃ n, fuel = n + 1 := ⟨fuel - 1, by simp at hfuel; omega⟩
    have hhead : (encodeFrames (f :: fs)).take 12 = packHeader f.token f.payload.length := by
      rw [encodeFrames_cons, List.take_left' (length_packHeader ..)]
    have hbody : (encodeFrames (f :: fs)).drop 12 = f.payload ++ encodeFrames fs := by
      rw [encodeFrames_cons, List.drop_left' (length_packHeader ..)]
    have hne : encodeFrames (f :: fs) ≠ [] := by
      intro hnil
      have hlen := congrArg List.length hhead
      simp [hnil] at hlen
    have hrest : (encodeFrames (f :: fs)).drop (12 + f.payload.length) = encodeFrames fs := by
      rw [← List.drop_drop, hbody, List.drop_left]
    generalize encodeFrames (f :: fs) = bytes at hhead hbody hne hrest
    have hread := ih (fun g hg => hunpack g (by simp [hg])) (Nat.le_of_succ_le_succ hfuel)
    rw [readFrames, if_neg hne, hhead, hunpack f (by simp)]
    simp [hbody, hrest, hread]

/-- The two header formats agree on what a query may carry. -/
theorem unpackQuery_pack {f : Frame} (hnonneg : 0 ≤ f.token) :
    unpackQuery (packHeader f.token f.payload.length) = some (f.token, f.payload.length) := by
  have hlt := f.token_lt
  have hlen := f.length_lt
  have htoken : (unsigned 8 f.token : ℤ) = f.token := by
    rw [unsigned, Int.emod_eq_of_lt hnonneg (by omega)]
    omega
  have hlength : decodeLE (encodeLE 4 f.payload.length) = f.payload.length := decodeLE_fits (by omega)
  rw [unpackQuery, if_pos (length_packHeader ..)]
  simp [packHeader, decodeLE_fits (unsigned_lt 8 f.token), htoken, hlength]

theorem length_le_encodeFrames (fs : List Frame) : fs.length ≤ (encodeFrames fs).length := by
  induction fs with
  | nil => rfl
  | cons f fs ih =>
    simp only [encodeFrames_cons, List.length_append, List.length_cons, length_packHeader]
    omega

inductive WireOp (V : Type) where
  | query (q : Query V)
  | recvall (length : ℕ) (deadline : Option ℤ)
  | close

namespace Transport

/-- The first line of `run_query`, a read of the wrapper, and `close`. -/
def perform : WireOp V → Prog (Transport P) (Exn V) Unit
  | .query q => do
    let message ← ofExcept q.serialize
    sendall message
  | .recvall length deadline => do
    let _ ← recvall length deadline
  | .close => modify close

/-- How `sendall` can end on an open wrapper. -/
theorem sendLoop_wire (sends : List SendOutcome) (data : Bytes) (t : Transport P) :
    (sendLoop sends data t).1 ≠ .running ∧ ((sendLoop sends data t).1 = .ok () ∧
      (sendLoop sends data t).2.isOpen = t.isOpen ∧ (sendLoop sends data t).2.sent = t.sent ++ data ∨
    (sendLoop sends data t).2.isOpen = false ∧
      ∃ tail, tail <+: data ∧ (sendLoop sends data t).2.sent = t.sent ++ tail) := by
  induction sends generalizing data t with
  | nil => exact ⟨by simp [sendLoop], .inl ⟨rfl, rfl, rfl⟩⟩
  | cons o sends ih =>
    by_cases hdata : data = []
    · simp [sendLoop, hdata]
    · simp only [sendLoop, if_neg hdata]
      cases o with
      | accept k =>
        obtain ⟨hback, hpost⟩ := ih (data.drop (k + 1)) { t with sent := t.sent ++ data.take (k + 1) }
        refine ⟨hback, ?_⟩
        rcases hpost with ⟨hok, hopen, hsent⟩ | ⟨hclosed, tail, htail, hsent⟩
        · left
          exact ⟨hok, hopen, by rw [hsent, List.append_assoc, List.take_append_drop]⟩
        · right
          refine ⟨hclosed, data.take (k + 1) ++ tail, ?_, by rw [hsent, List.append_assoc]⟩
          conv_rhs => rw [← List.take_append_drop (k + 1) data]
          exact (List.prefix_append_right_inj _).mpr htail
      | eintr => exact ih data t
      | interrupt accepted text =>
        exact ⟨by simp, .inr ⟨rfl, data.take accepted, List.take_prefix _ _, rfl⟩⟩
      | connReset => exact ⟨by simp, .inr ⟨rfl, [], List.nil_prefix, by simp [close]⟩⟩
      | osError text => exact ⟨by simp, .inr ⟨rfl, [], List.nil_prefix, by simp [close]⟩⟩
      | exception text => exact ⟨by simp, .inr ⟨rfl, [], List.nil_prefix, by simp [close]⟩⟩

/-- The same for `sendall`. -/
theorem sendall_wire (data : Bytes) (t : Transport P) :
    (sendall data t).1 ≠ .running ∧ ((sendall data t).1 = .ok () ∧
      (sendall data t).2.isOpen = t.isOpen ∧ (sendall data t).2.sent = t.sent ++ data ∨
    (sendall data t).2.isOpen = false ∧
      ∃ tail, tail <+: data ∧ (sendall data t).2.sent = t.sent ++ tail) := by
  unfold sendall
  split_ifs with hdata hopen
  · exact ⟨by simp, .inl ⟨rfl, rfl, by simp [hdata]⟩⟩
  · exact sendLoop_wire t.sends data t
  · exact ⟨by simp, .inr ⟨by simpa using hopen, [], List.nil_prefix, by simp⟩⟩

/-- A read puts nothing on the wire and opens nothing. -/
theorem recvLoop_wire (length : ℕ) (env : List (Event P.Act)) (res : Bytes) (t : Transport P) :
    (recvLoop length env res t).2.sent = t.sent ∧
      ((recvLoop length env res t).2.isOpen = true → t.isOpen = true) := by
  induction env generalizing res t with
  | nil =>
    unfold recvLoop
    split_ifs <;> exact ⟨rfl, fun h => h⟩
  | cons e env ih =>
    unfold recvLoop
    split_ifs with hdone
    · exact ⟨rfl, fun h => h⟩
    · cases e with
      | peer a => exact ih res (t.peerAct a)
      | recv o =>
        simp only
        cases hreceived : t.recv (length - res.length) o with
        | none => exact ih res t
        | some received =>
          cases received with
          | data chunk =>
            simp only
            split_ifs with hempty
            · exact ⟨rfl, by simp [close]⟩
            · exact ih (res ++ chunk) _
          | timeout => exact ⟨rfl, fun h => h⟩
          | wouldBlock => exact ⟨rfl, fun h => h⟩
          | eintr => exact ih res t
          | connReset => exact ⟨rfl, by simp [close]⟩
          | osError text => exact ⟨rfl, fun h => h⟩
          | exception text => exact ⟨rfl, by simp [close]⟩

theorem recvall_wire (length : ℕ) (deadline : Option ℤ) (t : Transport P) :
    (recvall length deadline t).2.sent = t.sent ∧
      ((recvall length deadline t).2.isOpen = true → t.isOpen = true) := by
  have hremaining : (t.remaining deadline).2.sent = t.sent ∧ (t.remaining deadline).2.isOpen = t.isOpen := by
    cases deadline <;> exact ⟨rfl, rfl⟩
  unfold recvall
  simp only
  split_ifs with hopen
  · obtain ⟨hsent, -⟩ := recvLoop_wire length t.env (t.readBuffer.getD [])
      ((t.remaining deadline).2.settimeout (t.remaining deadline).1)
    exact ⟨hsent.trans hremaining.1, fun _ => hopen⟩
  · exact ⟨hremaining.1, fun h => hremaining.2.symm.trans h⟩

theorem perform_query {q : Query V} {f : Frame} (h : q.Carries f) (t : Transport P) :
    perform (.query q) t = sendall f.encode t := by
  change (ofExcept q.serialize >>= fun message => sendall message) t = _
  rw [h.serialize]
  rfl

/-- Nothing gets past a closed wrapper. -/
theorem perform_closed (op : WireOp V) (sent : Bytes) :
    Maintains (fun t : Transport P => t.isOpen = false ∧ t.sent = sent)
      (fun t => t.isOpen = false ∧ t.sent = sent) (perform op) := by
  rintro t ⟨hclosed, hsent⟩
  suffices h : wp (perform op) (fun _ t' => t'.isOpen = false ∧ t'.sent = sent) t from
    ⟨fun _ => h, fun _ => h⟩
  cases op with
  | query q =>
    unfold perform
    apply wp_ofExcept_bind
    · intro _
      exact ⟨hclosed, hsent⟩
    · intro message _
      by_cases hmessage : message = [] <;> simp [wp, sendall, hmessage, hclosed, hsent]
  | recvall length deadline =>
    unfold perform
    obtain ⟨hkeeps, hopen⟩ := recvall_wire length deadline t
    have hstill : (recvall length deadline t).2.isOpen = false := by
      rw [← Bool.not_eq_true]
      intro h
      simp [hopen h] at hclosed
    have hread : wp (recvall length deadline) (fun _ t' => t'.isOpen = false ∧ t'.sent = sent) t :=
      ⟨hstill, hkeeps.trans hsent⟩
    rw [wp_bind]
    apply hread.mono
    rintro (r | e | _) t' ht'
    · exact ht'
    · exact ht'
    · exact ht'
  | close => exact ⟨rfl, hsent⟩

theorem session_closed (ops : List (WireOp V)) {t : Transport P} (hclosed : t.isOpen = false) :
    (session (ops.map perform) t).2.isOpen = false ∧ (session (ops.map perform) t).2.sent = t.sent := by
  have hkeeps : ∀ m ∈ ops.map (perform (P := P)), Maintains
      (fun t' : Transport P => t'.isOpen = false ∧ t'.sent = t.sent)
      (fun t' => t'.isOpen = false ∧ t'.sent = t.sent) m := by
    intro m hm
    obtain ⟨op, -, rfl⟩ := List.mem_map.mp hm
    exact perform_closed op t.sent
  obtain ⟨hrunning, hover⟩ := session_maintains hkeeps ⟨hclosed, rfl⟩
  by_cases h : .running ∈ (session (ops.map (perform (P := P))) t).1
  · exact hrunning h
  · exact hover h

end Transport

def WireOp.queries (ops : List (WireOp V)) : List (Query V) :=
  ops.filterMap fun
    | .query q => some q
    | _ => none

/-- What is on the wire: what was there before, the first frames whole, and no more than the beginning
of the next one, which closed the wrapper. -/
structure WholeFrames (frames : List Frame) (before : Bytes) (t : Transport P) (k : ℕ) (tail : Bytes) :
    Prop where
  sent : t.sent = before ++ (encodeFrames (frames.take k) ++ tail)
  broken : tail ≠ [] → t.isOpen = false ∧ ∃ f, frames[k]? = some f ∧ tail <+: f.encode ∧ tail ≠ f.encode

theorem WholeFrames.none {frames : List Frame} {t : Transport P} : WholeFrames frames t.sent t 0 [] where
  sent := by simp
  broken := by simp

theorem WholeFrames.cons {f : Frame} {frames : List Frame} {before tail : Bytes} {t : Transport P} {k : ℕ}
    (h : WholeFrames frames (before ++ f.encode) t k tail) :
    WholeFrames (f :: frames) before t (k + 1) tail where
  sent := by
    rw [h.sent, List.take_succ_cons, encodeFrames, encodeFrames, List.flatMap_cons]
    simp only [List.append_assoc]
  broken := h.broken

namespace Transport

/-- A run of the wrapper. -/
theorem session_wire {ops : List (WireOp V)} {frames : List Frame}
    (hcarries : List.Forall₂ Query.Carries (WireOp.queries ops) frames) (t : Transport P) :
    ∃ k tail, WholeFrames frames t.sent (session (ops.map perform) t).2 k tail := by
  induction ops generalizing frames t with
  | nil => exact ⟨0, [], .none⟩
  | cons op ops ih =>
    rw [List.map_cons]
    cases op with
    | query q =>
      obtain ⟨f, frames, hq, hcarries', rfl⟩ : ∃ f frames', q.Carries f ∧
          List.Forall₂ Query.Carries (WireOp.queries ops) frames' ∧ frames = f :: frames' := by
        have hqueries : WireOp.queries (.query q :: ops) = q :: WireOp.queries ops := rfl
        rw [hqueries] at hcarries
        cases hcarries with
        | cons hq hrest => exact ⟨_, _, hq, hrest, rfl⟩
      have hperform := perform_query hq t
      obtain ⟨hback, hpost⟩ := sendall_wire f.encode t
      rw [← hperform] at hback hpost
      rw [session_over hback]
      rcases hpost with ⟨-, -, hsent⟩ | ⟨hclosed, tail, htail, hsent⟩
      · obtain ⟨k, tail, hframes⟩ := ih hcarries' (perform (.query q) t).2
        rw [hsent] at hframes
        exact ⟨k + 1, tail, hframes.cons⟩
      · obtain ⟨hstill, hkeeps⟩ := session_closed ops hclosed
        rw [hsent] at hkeeps
        by_cases hwhole : tail = f.encode
        · -- the last byte was accepted, and then the call was interrupted
          refine ⟨1, [], ⟨?_, by simp⟩⟩
          rw [hkeeps, hwhole]
          simp [encodeFrames]
        · refine ⟨0, tail, ⟨by simpa using hkeeps, ?_⟩⟩
          exact fun _ => ⟨hstill, f, rfl, htail, hwhole⟩
    | recvall length deadline =>
      obtain ⟨hsent, -⟩ := recvall_wire length deadline t
      have hperform : (perform (.recvall length deadline) t).2 = (recvall length deadline t).2 := by
        change (after _ (recvall length deadline t)).2 = _
        rcases recvall length deadline t with ⟨r | e | _, t'⟩ <;> rfl
      rw [← hperform] at hsent
      by_cases hback : (perform (.recvall length deadline) t).1 = .running
      · rw [session_running hback, ← hsent]
        exact ⟨0, [], .none⟩
      · rw [session_over hback, ← hsent]
        exact ih hcarries _
    | close =>
      have hback : (perform (.close : WireOp V) t).1 ≠ .running := by
        change Outcome.ok () ≠ .running
        simp
      rw [session_over hback]
      exact ih hcarries t.close

end Transport

/-- Wherever the run of a wrapper stands, the bytes accepted are whole frames of the first queries and
at most a beginning of the next one; that beginning closed the wrapper, a closed wrapper sends
nothing in whatever comes after, and the whole frames are read back one by one, under the header
format of requests and under that of replies. -/
theorem wire_whole_frames {ops : List (WireOp V)} {frames : List Frame}
    (hcarries : List.Forall₂ Query.Carries (WireOp.queries ops) frames) (t : Transport P) :
    ∃ k tail, WholeFrames frames t.sent (session (ops.map Transport.perform) t).2 k tail ∧
      ((session (ops.map Transport.perform) t).2.isOpen = false → ∀ later : List (WireOp V),
        (session (later.map Transport.perform) (session (ops.map Transport.perform) t).2).2.sent =
          (session (ops.map Transport.perform) t).2.sent) ∧
      ∀ unpack ∈ [unpackQuery, unpackHeader],
        readFrames unpack (encodeFrames (frames.take k)).length (encodeFrames (frames.take k)) =
          some ((frames.take k).map fun f => (f.token, f.payload)) := by
  obtain ⟨k, tail, hframes⟩ := Transport.session_wire hcarries t
  refine ⟨k, tail, hframes, ?_, ?_⟩
  · intro hclosed later
    exact (Transport.session_closed later hclosed).2
  · intro unpack hunpack
    apply readFrames_encode _ (length_le_encodeFrames _)
    intro f hf
    have hnonneg := nonneg_of_carries hcarries f (List.mem_of_mem_take hf)
    simp only [List.mem_cons, List.not_mem_nil, or_false] at hunpack
    rcases hunpack with rfl | rfl
    · exact unpackQuery_pack hnonneg
    · exact unpackHeader_pack f

def listener : Peer ℕ := ⟨Unit, Empty, fun s _ => s, fun _ a => a.elim⟩

def sending (sends : List SendOutcome) : Transport listener :=
  { host := "localhost", port := 28015, isOpen := true, readBuffer := none, timeout := none
    incoming := [], peer := (), env := [], sends, sent := [], clock := fun n => n, ticks := 0 }

/-- The first query goes out in two pieces, the second is interrupted in its header, and the third
meets a closed wrapper. -/
theorem wire_whole_frames_interrupted :
    let f : Frame := ⟨7, [91, 52, 93], by decide, by decide, by decide⟩
    let q : Query ℕ := ⟨.noreplyWait, 7, none, .ok [91, 52, 93], none, false⟩
    let t := sending [.accept 3, .eintr, .accept 99, .interrupt 5 "KeyboardInterrupt"]
    let t' := (session ([.query q, .query q, .query q].map Transport.perform) t).2
    (∃ k tail, WholeFrames [f, f, f] [] t' k tail ∧
      (t'.isOpen = false → ∀ later : List (WireOp ℕ),
        (session (later.map Transport.perform) t').2.sent = t'.sent) ∧
      ∀ unpack ∈ [unpackQuery, unpackHeader],
        readFrames unpack (encodeFrames ([f, f, f].take k)).length (encodeFrames ([f, f, f].take k)) =
          some (([f, f, f].take k).map fun f => (f.token, f.payload))) ∧
    t'.sent = f.encode ++ f.encode.take 5 := by
  intro f q t t'
  have hq : q.Carries f := ⟨rfl, by decide, rfl⟩
  have hcarries : List.Forall₂ Query.Carries
      (WireOp.queries [.query q, .query q, .query q]) [f, f, f] := .cons hq (.cons hq (.cons hq .nil))
  exact ⟨wire_whole_frames hcarries t, by decide⟩

end RethinkDB.Net
