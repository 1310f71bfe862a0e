import RethinkDB.Net.Frames
import RethinkDB.Twisted.Protocol

/-! Frames come out of `DatabaseProtocol` the same however the transport cuts their bytes. -/
namespace RethinkDB.Twisted
open RethinkDB.Lib Net Prog

/-- The frames that `n` bytes of their encodings complete. -/
def arrived : List Frame → ℕ → List Frame
  | [], _ => []
  | f :: fs, n => if f.encode.length ≤ n then f :: arrived fs (n - f.encode.length) else []

theorem arrived_all (fs : List Frame) : arrived fs (encodeFrames fs).length = fs := by
  induction fs with
  | nil => rfl
  | cons f fs ih =>
    have hsplit : (encodeFrames (f :: fs)).length = f.encode.length + (encodeFrames fs).length := by
      simp [encodeFrames]
    rw [arrived, if_pos (by omega), hsplit, Nat.add_sub_cancel_left, ih]

/-- They are the most frames that fit. -/
theorem arrived_maximal (fs : List Frame) (n : ℕ) :
    ∃ k, arrived fs n = fs.take k ∧ (encodeFrames (fs.take k)).length ≤ n ∧
      ∀ m, (encodeFrames (fs.take m)).length ≤ n → fs.take m <+: fs.take k := by
  induction fs generalizing n with
  | nil => exact ⟨0, by simp [arrived]⟩
  | cons f fs ih =>
    have hsplit : ∀ m, (encodeFrames (f :: fs.take m)).length =
        f.encode.length + (encodeFrames (fs.take m)).length := by simp [encodeFrames]
    unfold arrived
    split_ifs with hfits
    · obtain ⟨k, hk, hlen, hmax⟩ := ih (n - f.encode.length)
      refine ⟨k + 1, by rw [hk, List.take_succ_cons], ?_, ?_⟩
      · rw [List.take_succ_cons, hsplit]
        omega
      · intro m hm
        cases m with
        | zero => simp
        | succ m =>
          rw [List.take_succ_cons, hsplit] at hm
          rw [List.take_succ_cons, List.take_succ_cons, List.prefix_cons_inj]
          exact hmax m (by omega)
    · refine ⟨0, rfl, by simp, ?_⟩
      intro m hm
      cases m with
      | zero => exact List.prefix_rfl
      | succ m =>
        rw [List.take_succ_cons, hsplit] at hm
        omega

theorem arrived_prefix (fs : List Frame) (n : ℕ) :
    arrived fs n ++ fs.drop (arrived fs n).length = fs := by
  obtain ⟨k, hk, -⟩ := arrived_maximal fs n
  have hstarting : arrived fs n <+: fs := by
    rw [hk]
    exact List.take_prefix k fs
  exact (List.prefix_iff_eq_append.mp hstarting)

/-- More bytes only add frames. -/
theorem arrived_add (fs : List Frame) (n m : ℕ) :
    arrived fs (n + m) = arrived fs n ++
      arrived (fs.drop (arrived fs n).length) (n - (encodeFrames (arrived fs n)).length + m) := by
  induction fs generalizing n with
  | nil => rfl
  | cons f fs ih =>
    by_cases hfits : f.encode.length ≤ n
    · have hsub : n + m - f.encode.length = n - f.encode.length + m := by omega
      have hone : arrived (f :: fs) n = f :: arrived fs (n - f.encode.length) := by
        rw [arrived, if_pos hfits]
      have hlen : (encodeFrames (f :: arrived fs (n - f.encode.length))).length =
          f.encode.length + (encodeFrames (arrived fs (n - f.encode.length))).length := by
        simp [encodeFrames]
      rw [hone, arrived, if_pos (by omega), hsub, ih (n - f.encode.length), hlen, Nat.sub_add_eq]
      rfl
    · have hnone : arrived (f :: fs) n = [] := by rw [arrived, if_neg hfits]
      rw [hnone]
      simp

namespace DatabaseProtocol
variable {H : Type} {responseHandler : ResponseHandler H} {d : DatabaseProtocol H}

/-- The bytes taken in and not handed on: a header read before stands in `buf_token` and
`buf_expected_length`, everything else in `buf`. -/
inductive Holds (d : DatabaseProtocol H) : Bytes → Prop
  | header : d.bufExpectedLength = 0 → d.bufToken = none → Holds d d.buf
  | payload {header : Bytes} {token : ℤ} : 0 < d.bufExpectedLength → d.bufToken = some token →
      unpackHeader header = some (token, d.bufExpectedLength) → Holds d (header ++ d.buf)

theorem Holds.of_header {header bytes : Bytes} {token : ℤ} (hpos : 0 < d.bufExpectedLength)
    (htoken : d.bufToken = some token)
    (hheader : unpackHeader header = some (token, d.bufExpectedLength))
    (hbytes : bytes = header ++ d.buf) : d.Holds bytes := by
  rw [hbytes]
  exact .payload hpos htoken hheader

/-- Neither a header nor a payload can be completed from `buf`. -/
def Starved (d : DatabaseProtocol H) : Prop :=
  if d.bufExpectedLength = 0 then d.buf.length < 12 else d.buf.length < d.bufExpectedLength

def SameMode (d d' : DatabaseProtocol H) : Prop := d'.state = d.state ∧ d'.isOpen = d.isOpen

theorem length_of_unpackHeader {header : Bytes} {r : ℤ × ℕ} (h : unpackHeader header = some r) :
    header.length = 12 := by
  unfold unpackHeader at h
  split_ifs at h with hlen
  exact hlen

/-- A header that starts a frame is the frame's. -/
theorem unpackHeader_encode {header bytes rest : Bytes} {r : ℤ × ℕ} {f : Frame}
    (h : unpackHeader header = some r) (hbytes : header ++ bytes = f.encode ++ rest) :
    r = (f.token, f.payload.length) ∧ bytes = f.payload ++ rest := by
  rw [Frame.encode, List.append_assoc] at hbytes
  obtain ⟨hheader, hrest⟩ := List.append_inj hbytes (by simp [length_of_unpackHeader h])
  rw [hheader, unpackHeader_pack, Option.some.injEq] at h
  exact ⟨h.symm, hrest⟩

section Turn
variable {f : Frame} {bytes rest more : Bytes}

/-- After the first half either the header of the next frame is in, or it is not there yet. -/
theorem readHeader_spec (hholds : d.Holds bytes) (hbytes : bytes ++ rest = f.encode ++ more) :
    wp readHeader (fun o d' => d.SameMode d' ∧ d'.calls = d.calls ∧ match o with
      | .ok true => d'.bufToken = some f.token ∧ d'.bufExpectedLength = f.payload.length ∧
          bytes = packHeader f.token f.payload.length ++ d'.buf ∧
          (0 < f.payload.length → d'.Holds bytes) ∧
          (f.payload.length = 0 → d'.buf.length < d.buf.length) ∧ d'.buf.length ≤ d.buf.length
      | .ok false => d' = d ∧ d.Starved ∧ bytes.length < f.encode.length
      | _ => False) d := by
  unfold readHeader
  rw [wp_bind, wp_read, bindPost_ok]
  cases hholds with
  | header hlength htoken =>
    simp only [id, hlength, if_true]
    by_cases hfull : 12 ≤ d.buf.length
    · have hparse : unpackHeader (d.buf.take 12) = some (f.token, f.payload.length) ∧
          d.buf = packHeader f.token f.payload.length ++ d.buf.drop 12 := by
        have hsplit : d.buf.take 12 ++ (d.buf.drop 12 ++ rest) = f.encode ++ more := by
          rw [← List.append_assoc, List.take_append_drop, hbytes]
        rw [Frame.encode, List.append_assoc] at hsplit
        obtain ⟨hheader, -⟩ := List.append_inj hsplit (by simp [hfull])
        constructor
        · rw [hheader, unpackHeader_pack]
        · rw [← hheader, List.take_append_drop]
      obtain ⟨hheader, hbuf⟩ := hparse
      have hunpack : unpack (d.buf.take 12) = .ok (f.token, f.payload.length) := by
        simp [unpack, hheader]
      rw [if_pos hfull, wp_ofExcept_bind_ok hunpack, wp_bind, wp_modify, bindPost_ok, wp_pure]
      refine ⟨⟨rfl, rfl⟩, rfl, rfl, rfl, hbuf, ?_, ?_, ?_⟩
      · intro hpos
        exact Holds.of_header hpos rfl hheader (List.take_append_drop 12 d.buf).symm
      · intro _
        simp only [List.length_drop]
        omega
      · simp
    · rw [if_neg hfull, wp_pure]
      refine ⟨⟨rfl, rfl⟩, rfl, rfl, ?_, ?_⟩
      · rw [Starved, if_pos hlength]
        omega
      · simp only [Frame.encode, List.length_append, length_packHeader]
        omega
  | @payload header token hpos htoken hheader =>
    rw [if_neg (by simpa using hpos.ne'), wp_pure]
    rw [List.append_assoc] at hbytes
    obtain ⟨hr, -⟩ := unpackHeader_encode hheader hbytes
    rw [Prod.mk.injEq] at hr
    rw [Frame.encode, List.append_assoc] at hbytes
    obtain ⟨hpack, -⟩ := List.append_inj hbytes (by simp [length_of_unpackHeader hheader])
    refine ⟨⟨rfl, rfl⟩, rfl, by rw [htoken, hr.1], hr.2, by rw [hpack], ?_, ?_, le_rfl⟩
    · exact fun _ => .payload hpos htoken hheader
    · omega

/-- With its header in, a frame is handed on as soon as the payload is there. -/
theorem readPayload_spec (hreturns : ∀ token payload h, (responseHandler token payload h).1 = .ok ())
    (htoken : d.bufToken = some f.token) (hlength : d.bufExpectedLength = f.payload.length)
    (hbytes : d.buf ++ rest = f.payload ++ more) :
    wp (readPayload responseHandler) (fun o d' => d.SameMode d' ∧ match o with
      | .ok true => d'.calls = d.calls ++ [(some f.token, f.payload)] ∧ d'.bufToken = none ∧
          d'.bufExpectedLength = 0 ∧ d.buf = f.payload ++ d'.buf
      | .ok false => d' = d ∧ d.buf.length < f.payload.length
      | _ => False) d := by
  unfold readPayload
  rw [wp_bind, wp_read, bindPost_ok]
  simp only [id, hlength]
  by_cases hshort : d.buf.length < f.payload.length
  · rw [if_pos hshort, wp_pure]
    exact ⟨⟨rfl, rfl⟩, rfl, hshort⟩
  · have hpayload : d.buf.take f.payload.length = f.payload := by
      have htake := congrArg (List.take f.payload.length) hbytes
      rwa [List.take_append_of_le_length (by omega), List.take_left] at htake
    have hsplit : d.buf = f.payload ++ d.buf.drop f.payload.length := by
      conv_lhs => rw [← List.take_append_drop f.payload.length d.buf, hpayload]
    rw [if_neg hshort, hpayload, htoken, wp_bind]
    unfold respond
    rw [wp_bind, wp_modify, bindPost_ok, wp_zoom]
    have hok : wp (responseHandler (some f.token) f.payload) (fun o _ => o = .ok ()) d.factory :=
      hreturns _ _ _
    apply hok.mono
    intro _ h ho
    rw [ho, bindPost_ok, wp_bind, wp_modify, bindPost_ok, wp_pure]
    refine ⟨⟨rfl, rfl⟩, rfl, rfl, rfl, ?_⟩
    simp only [hlength]
    exact hsplit

/-- One turn hands on the next frame, or leaves the bytes held for want of more. -/
theorem handleTurn_spec (hreturns : ∀ token payload h, (responseHandler token payload h).1 = .ok ())
    (hholds : d.Holds bytes) (hbytes : bytes ++ rest = f.encode ++ more) :
    wp (handleTurn responseHandler) (fun o d' => d.SameMode d' ∧ match o with
      | .ok true => d'.calls = d.calls ++ [(some f.token, f.payload)] ∧ d'.Holds d'.buf ∧
          bytes = f.encode ++ d'.buf ∧ d'.buf.length < d.buf.length
      | .ok false => d'.calls = d.calls ∧ d'.Holds bytes ∧ d'.Starved ∧ bytes.length < f.encode.length
      | _ => False) d := by
  unfold handleTurn
  rw [wp_bind]
  apply (readHeader_spec hholds hbytes).mono
  rintro ((_ | _) | _ | _) d₁ ⟨hmode, hcalls, hpost⟩
  · obtain ⟨rfl, hstarved, hshort⟩ := hpost
    rw [bindPost_ok, if_neg (by simp), wp_pure]
    exact ⟨⟨rfl, rfl⟩, rfl, hholds, hstarved, hshort⟩
  · obtain ⟨htoken, hlength, hsplit, hstill, hzero, hless⟩ := hpost
    have hrest : d₁.buf ++ rest = f.payload ++ more := by
      rw [hsplit, Frame.encode, List.append_assoc, List.append_assoc] at hbytes
      exact List.append_cancel_left hbytes
    rw [bindPost_ok, if_pos rfl]
    apply (readPayload_spec hreturns htoken hlength hrest).mono
    rintro ((_ | _) | _ | _) d₂ ⟨hmode', hpost⟩
    · obtain ⟨rfl, hshort⟩ := hpost
      have hpos : 0 < f.payload.length := by omega
      refine ⟨hmode, hcalls, hstill hpos, ?_, ?_⟩
      · rw [Starved, if_neg (by omega), hlength]
        exact hshort
      · rw [hsplit, Frame.encode, List.length_append, List.length_append]
        omega
    · obtain ⟨hcalls', htoken', hlength', hpayload⟩ := hpost
      refine ⟨⟨hmode'.1.trans hmode.1, hmode'.2.trans hmode.2⟩, by rw [hcalls', hcalls],
        .header hlength' htoken', ?_, ?_⟩
      · rw [hsplit, hpayload, Frame.encode, List.append_assoc]
      · have hlen := congrArg List.length hpayload
        rw [List.length_append] at hlen
        by_cases hempty : f.payload.length = 0
        · have := hzero hempty
          omega
        · omega
    all_goals exact hpost.elim
  all_goals exact hpost.elim

end Turn

/-- With nothing held a turn is the last one. -/
theorem handleTurn_nil (hholds : d.Holds []) :
    d.Starved ∧ handleTurn responseHandler d = (.ok false, d) := by
  generalize hbytes : ([] : Bytes) = bytes at hholds
  cases hholds with
  | header hlength htoken =>
    have hshort : ¬12 ≤ d.buf.length := by simp [← hbytes]
    constructor
    · rw [Starved, if_pos hlength]
      omega
    · apply eq_of_wp
      unfold handleTurn readHeader
      simp [hlength, hshort]
  | payload hpos htoken hheader =>
    have hlen := length_of_unpackHeader hheader
    simp [(List.append_eq_nil_iff.mp hbytes.symm).1] at hlen

/-- The whole loop, over the frames the held bytes start. -/
theorem turns_spec (hreturns : ∀ token payload h, (responseHandler token payload h).1 = .ok ())
    {fs : List Frame} {bytes rest : Bytes} {n : ℕ} (hholds : d.Holds bytes)
    (hbytes : bytes ++ rest = encodeFrames fs) (hfuel : d.buf.length < n) :
    wp (turns (handleTurn responseHandler) n) (fun o d' => o = .ok () ∧ d.SameMode d' ∧
      d'.calls = d.calls ++ (arrived fs bytes.length).map (fun f => (some f.token, f.payload)) ∧
      d'.Holds (bytes.drop (encodeFrames (arrived fs bytes.length)).length) ∧ d'.Starved) d := by
  obtain ⟨n, rfl⟩ : ∃ m, n = m + 1 := ⟨n - 1, by omega⟩
  induction fs generalizing d bytes n with
  | nil =>
    obtain ⟨rfl, -⟩ := List.append_eq_nil_iff.mp hbytes
    obtain ⟨hstarved, hturn⟩ : d.Starved ∧ handleTurn responseHandler d = (.ok false, d) :=
      handleTurn_nil hholds
    have hlast : turns (handleTurn responseHandler) (n + 1) d = (.ok (), d) := by
      apply eq_of_wp
      have hturn' : wp (handleTurn responseHandler) (fun o s => o = .ok false ∧ s = d) d := by
        rw [wp, hturn]
        exact ⟨rfl, rfl⟩
      rw [turns, wp_bind]
      apply hturn'.mono
      rintro o s ⟨rfl, rfl⟩
      exact ⟨rfl, rfl⟩
    rw [wp, hlast]
    exact ⟨rfl, ⟨rfl, rfl⟩, by simp [arrived], by simpa [arrived] using hholds, hstarved⟩
  | cons f fs ih =>
    have hbytes' : bytes ++ rest = f.encode ++ encodeFrames fs := by
      rw [hbytes, encodeFrames, List.flatMap_cons]
      rfl
    rw [turns, wp_bind]
    apply (handleTurn_spec hreturns hholds hbytes').mono
    rintro ((_ | _) | _ | _) d₁ ⟨hmode, hpost⟩
    · obtain ⟨hcalls, hholds', hstarved, hshort⟩ := hpost
      have hnone : arrived (f :: fs) bytes.length = [] := by rw [arrived, if_neg (by omega)]
      rw [bindPost_ok, if_neg (by simp), wp_pure, hnone]
      exact ⟨rfl, hmode, by simp [hcalls], by simpa using hholds', hstarved⟩
    · obtain ⟨hcalls, hholds', hsplit, hless⟩ := hpost
      have hone : arrived (f :: fs) bytes.length = f :: arrived fs d₁.buf.length := by
        rw [arrived, hsplit, List.length_append, if_pos (by omega), Nat.add_sub_cancel_left]
      have hrest : d₁.buf ++ rest = encodeFrames fs := by
        rw [hsplit, List.append_assoc] at hbytes'
        exact List.append_cancel_left hbytes'
      obtain ⟨m, rfl⟩ : ∃ m, n = m + 1 := ⟨n - 1, by omega⟩
      rw [bindPost_ok, if_pos rfl, hone]
      apply (ih hholds' hrest m (by omega)).mono
      rintro o d₂ ⟨ho, hmode', hcalls', hholds'', hstarved⟩
      refine ⟨ho, ⟨hmode'.1.trans hmode.1, hmode'.2.trans hmode.2⟩, ?_, ?_, hstarved⟩
      · rw [hcalls', hcalls, List.append_assoc]
        rfl
      · have hdrop : bytes.drop (encodeFrames (f :: arrived fs d₁.buf.length)).length =
            d₁.buf.drop (encodeFrames (arrived fs d₁.buf.length)).length := by
          rw [hsplit, encodeFrames, List.flatMap_cons, List.length_append, ← List.drop_drop,
            List.drop_left]
          rfl
        rw [hdrop]
        exact hholds''
    all_goals exact hpost.elim

/-- Where the protocol stands after `received`, having been empty at `d₀`. -/
structure Between (fs : List Frame) (received : Bytes) (d₀ d : DatabaseProtocol H) : Prop where
  calls : d.calls = d₀.calls ++ (arrived fs received.length).map fun f => (some f.token, f.payload)
  holds : d.Holds (received.drop (encodeFrames (arrived fs received.length)).length)
  starved : d.Starved

/-- `READY` and open, with an empty buffer. -/
structure Ready (d : DatabaseProtocol H) : Prop where
  state : d.state = .ready
  isOpen : d.isOpen = true
  buf : d.buf = []
  bufExpectedLength : d.bufExpectedLength = 0
  bufToken : d.bufToken = none

theorem Holds.append {bytes : Bytes} (h : d.Holds bytes) (data : Bytes) :
    Holds { d with buf := d.buf ++ data } (bytes ++ data) := by
  cases h with
  | header hlength htoken => exact .header hlength htoken
  | payload hpos htoken hheader =>
    rw [List.append_assoc]
    exact .payload hpos htoken hheader

section Stream
variable {handleHandshake : Bytes → Prog (DatabaseProtocol H) String Unit} {fs : List Frame}
  {received rest : Bytes} {d₀ : DatabaseProtocol H}

/-- One chunk. -/
theorem dataReceived_spec (hreturns : ∀ token payload h, (responseHandler token payload h).1 = .ok ())
    (hmode : d.state = .ready ∧ d.isOpen = true) (h : Between fs received d₀ d) {data : Bytes}
    (hbytes : received ++ (data ++ rest) = encodeFrames fs) :
    wp (dataReceived responseHandler handleHandshake data) (fun o d' => o = .ok () ∧
      d.SameMode d' ∧ Between fs (received ++ data) d₀ d') d := by
  have hfirst : encodeFrames (arrived fs received.length) ++
      encodeFrames (fs.drop (arrived fs received.length).length) = encodeFrames fs := by
    rw [← encodeFrames_append, arrived_prefix]
  have hfits : (encodeFrames (arrived fs received.length)).length ≤ received.length := by
    obtain ⟨k, hk, hlen, -⟩ := arrived_maximal fs received.length
    rw [hk]
    exact hlen
  have hheld : received.drop (encodeFrames (arrived fs received.length)).length ++ data ++ rest =
      encodeFrames (fs.drop (arrived fs received.length).length) := by
    have hdrop := congrArg (List.drop (encodeFrames (arrived fs received.length)).length)
      (hbytes.trans hfirst.symm)
    rwa [List.drop_left, List.drop_append_of_le_length hfits, ← List.append_assoc] at hdrop
  unfold dataReceived
  rw [wp_bind, wp_read, bindPost_ok]
  simp only [id, hmode, if_true, wp_handle]
  unfold handleResponse
  rw [wp_bind, wp_modify, bindPost_ok, wp_bind, wp_read, bindPost_ok]
  apply (turns_spec hreturns (h.holds.append data) hheld (Nat.lt_succ_self _)).mono
  rintro o d' ⟨rfl, hmode', hcalls, hholds, hstarved⟩
  have hgrown := arrived_add fs received.length data.length
  rw [List.length_append, List.length_drop] at hcalls hholds
  refine ⟨rfl, hmode', ⟨?_, ?_, hstarved⟩⟩
  · rw [hcalls, List.length_append, hgrown, List.map_append, ← List.append_assoc, ← h.calls]
  · rw [List.length_append, hgrown, encodeFrames_append, List.length_append, ← List.drop_drop,
      List.drop_append_of_le_length hfits]
    exact hholds

theorem forEach_dataReceived
    (hreturns : ∀ token payload h, (responseHandler token payload h).1 = .ok ())
    (hmode : d.state = .ready ∧ d.isOpen = true) {chunks : List Bytes} (h : Between fs received d₀ d)
    (hbytes : received ++ (chunks.flatten ++ rest) = encodeFrames fs) :
    wp (forEach (dataReceived responseHandler handleHandshake) chunks) (fun o d' => o = .ok () ∧
      Between fs (received ++ chunks.flatten) d₀ d') d := by
  induction chunks generalizing d received with
  | nil =>
    rw [List.flatten_nil, List.append_nil]
    exact ⟨rfl, h⟩
  | cons data chunks ih =>
    rw [List.flatten_cons, List.append_assoc] at hbytes
    rw [forEach, wp_bind, List.flatten_cons, ← List.append_assoc]
    apply (dataReceived_spec hreturns hmode h hbytes).mono
    rintro _ d₁ ⟨rfl, hmode', h'⟩
    rw [← List.append_assoc] at hbytes
    exact ih ⟨hmode'.1.trans hmode.1, hmode'.2.trans hmode.2⟩ h' hbytes

end Stream

/-- However a stream of frames is cut, after each chunk the calls are those of the frames whose
last byte is in, and the three buffer fields stand for the bytes after them. -/
theorem calls_independent_of_chunks
    (hreturns : ∀ token payload h, (responseHandler token payload h).1 = .ok ())
    (handleHandshake : Bytes → Prog (DatabaseProtocol H) String Unit) (hready : d.Ready)
    {fs : List Frame} {before after : List Bytes}
    (hstream : (before ++ after).flatten = encodeFrames fs) :
    (∃ d', forEach (dataReceived responseHandler handleHandshake) before d = (.ok (), d') ∧
      Between fs before.flatten d d') ∧
    (after = [] → arrived fs before.flatten.length = fs) := by
  have hstart : Between fs [] d d := by
    have hnone : arrived fs 0 = [] := by
      cases fs with
      | nil => rfl
      | cons f fs => rw [arrived, if_neg (by simp [Frame.encode])]
    refine ⟨by simp [hnone], ?_, ?_⟩
    · have hholds : d.Holds d.buf := .header hready.bufExpectedLength hready.bufToken
      rw [hready.buf] at hholds
      simpa using hholds
    · rw [Starved, if_pos hready.bufExpectedLength, hready.buf]
      simp
  rw [List.flatten_append] at hstream
  constructor
  · have hwp : wp (forEach (dataReceived responseHandler handleHandshake) before) _ d :=
      forEach_dataReceived hreturns ⟨hready.state, hready.isOpen⟩ hstart hstream
    exact ⟨_, Prod.ext hwp.1 rfl, hwp.2⟩
  · rintro rfl
    have hall : before.flatten = encodeFrames fs := by simpa using hstream
    rw [hall, arrived_all]

/-- An empty payload and a longer one; the first cut is inside the first header, the second right
after the second. -/
theorem calls_independent_of_chunks_cut :
    let f : Frame := ⟨7, [], by decide, by decide, by decide⟩
    let g : Frame := ⟨-1, [1, 2, 3], by decide, by decide, by decide⟩
    let d : DatabaseProtocol Unit := ⟨.ready, [], 0, none, true, false, (), []⟩
    let chunks := [f.encode.take 5, f.encode.drop 5 ++ g.encode.take 12, g.encode.drop 12]
    ∃ d', forEach (dataReceived (fun _ _ => pure ()) fun _ => pure ()) chunks d = (.ok (), d') ∧
      d'.calls = [(some 7, []), (some (-1), [1, 2, 3])] := by
  intro f g d chunks
  have hstream : (chunks ++ []).flatten = encodeFrames [f, g] := by decide
  have hreturns : ∀ token payload h,
      ((fun _ _ => pure () : ResponseHandler Unit) token payload h).1 = .ok () := fun _ _ _ => rfl
  obtain ⟨⟨d', hd', hbetween⟩, hall⟩ :=
    calls_independent_of_chunks hreturns (fun _ => pure ()) (d := d) ⟨rfl, rfl, rfl, rfl, rfl⟩ hstream
  refine ⟨d', hd', ?_⟩
  rw [hbetween.calls, hall rfl]
  rfl

end DatabaseProtocol
end RethinkDB.Twisted
