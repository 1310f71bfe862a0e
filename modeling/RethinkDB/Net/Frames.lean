import RethinkDB.Net.Driver
import RethinkDB.Net.Reading

/-! Frames across calls of `_read_response`. Between two calls the header kept in
`_header_in_progress`, the (always empty) read buffer and the unreceived bytes are together
the encoding of the frames not handed out yet. -/
namespace RethinkDB.Net
open RethinkDB.Lib Prog

variable {V : Type} {P : Peer V}

/-- A server that only ever puts whole frames on the wire, with the list of them. -/
structure Framed (P : Peer V) where
  frames : P.State → List Frame
  act : ∀ s a, ∃ new, frames (P.act s a).1 = frames s ++ new ∧ (P.act s a).2 = encodeFrames new
  receive : ∀ s q, frames (P.receive s q) = frames s

theorem Framed.acts (F : Framed P) (s : P.State) (as : List P.Act) :
    ∃ new, F.frames (P.acts s as).1 = F.frames s ++ new ∧ (P.acts s as).2 = encodeFrames new := by
  induction as generalizing s with
  | nil => exact ⟨[], by simp [Peer.acts], by simp [Peer.acts]⟩
  | cons a as ih =>
    obtain ⟨new, hf, hb⟩ := F.act s a
    obtain ⟨later, hf', hb'⟩ := ih (P.act s a).1
    exact ⟨new ++ later, by simp [Peer.acts, hf', hf], by simp [Peer.acts, hb, hb']⟩

/-- The first twelve bytes of a frame sequence are the header of its first frame. -/
theorem encodeFrames_header {fs : List Frame} {header bytes : Bytes} (hlen : header.length = 12)
    (h : header ++ bytes = encodeFrames fs) :
    ∃ f rest, fs = f :: rest ∧ header = packHeader f.token f.payload.length ∧
      bytes = f.payload ++ encodeFrames rest := by
  cases fs with
  | nil =>
    have hnil : header = [] := (List.append_eq_nil_iff.mp h).1
    simp [hnil] at hlen
  | cons f rest =>
    rw [encodeFrames_cons] at h
    obtain ⟨hh, hb⟩ := List.append_inj h (by simp [hlen])
    exact ⟨f, rest, rfl, hh, hb⟩

namespace Driver

/-- Where the reader stands: `fs` are the frames still to be handed out. -/
structure InFlight (d : Driver P) (fs : List Frame) : Prop where
  buffer : d.io.readBuffer.getD [] = []
  header : ∀ h, d.headerInProgress = some h → h.length = 12
  bytes : d.headerInProgress.getD [] ++ d.io.incoming = encodeFrames fs

/-- What a read may change: the transport and the header. -/
structure Reads (d d' : Driver P) : Prop where
  eq : d' = { d with io := d'.io, headerInProgress := d'.headerInProgress }
  peer : ∃ as, d'.io.peer = (P.acts d.io.peer as).1
  address : d'.io.host = d.io.host ∧ d'.io.port = d.io.port
  isOpen : d'.io.isOpen = d.io.isOpen
  sends : d'.io.sends = d.io.sends
  env : d'.io.env <:+ d.io.env

theorem Reads.refl (d : Driver P) : Reads d d := ⟨rfl, ⟨[], rfl⟩, ⟨rfl, rfl⟩, rfl, rfl, List.suffix_rfl⟩

theorem Reads.trans {d e f : Driver P} (h : Reads d e) (h' : Reads e f) : Reads d f := by
  obtain ⟨as, has⟩ := h.peer
  obtain ⟨bs, hbs⟩ := h'.peer
  refine ⟨?_, ⟨as ++ bs, by rw [hbs, has, Peer.acts_append]⟩,
    ⟨h'.address.1.trans h.address.1, h'.address.2.trans h.address.2⟩, h'.isOpen.trans h.isOpen,
    h'.sends.trans h.sends, h'.env.trans h.env⟩
  rw [h'.eq, h.eq]

/-- A stretch of reading, seen from the frames: the server may have sent more of them. -/
structure ReadsFrom (F : Framed P) (d d' : Driver P) (fs fs' : List Frame) : Prop extends Reads d d' where
  frames : ∀ done, F.frames d.io.peer = done ++ fs → F.frames d'.io.peer = done ++ fs'

theorem ReadsFrom.trans {F : Framed P} {d e f : Driver P} {fs gs hs : List Frame}
    (h : ReadsFrom F d e fs gs) (h' : ReadsFrom F e f gs hs) : ReadsFrom F d f fs hs :=
  ⟨h.toReads.trans h'.toReads, fun done hd => h'.frames done (h.frames done hd)⟩

section Reading
variable (F : Framed P) {d : Driver P} {fs : List Frame}

/-- `recvall` at the driver's level: bytes asked for come off the front of the frames. -/
theorem recvall_inFlight (length : ℕ) (deadline : Option ℤ) (hopen : d.io.isOpen = true)
    (hbuf : d.io.readBuffer.getD [] = []) (hsoft : ∀ e ∈ d.io.env, e.Soft) {bytes : Bytes}
    (hbytes : bytes ++ d.io.incoming = encodeFrames fs) :
    wp (socket (Transport.recvall length deadline)) (fun o d' => ∃ fs', ReadsFrom F d d' fs fs' ∧
      d'.headerInProgress = d.headerInProgress ∧
      match o with
      | .ok r => r.length = length ∧ d'.io.readBuffer.getD [] = [] ∧
          bytes ++ (r ++ d'.io.incoming) = encodeFrames fs' ∧
          (0 < length → d'.io.env.length < d.io.env.length)
      | .error e => deadline ≠ none ∧ e = .timeout d.io.host d.io.port ∧ d'.io.readBuffer.getD [] = [] ∧
          bytes ++ d'.io.incoming = encodeFrames fs'
      | .running => d'.io.env = []) d := by
  rw [socket, wp_zoom]
  refine (Transport.recvall_spec length deadline hopen hbuf hsoft).mono ?_
  rintro o t ⟨⟨got, hspec⟩, hpatient⟩
  obtain ⟨as, hpeer, hgot⟩ := hspec.advanced.bytes
  obtain ⟨new, hframes, hnew⟩ := F.acts d.io.peer as
  have hsplit : bytes ++ (got ++ t.incoming) = encodeFrames (fs ++ new) := by
    rw [hgot, hnew, encodeFrames_append, ← List.append_assoc, hbytes]
  refine ⟨fs ++ new, ⟨⟨rfl, ⟨as, hpeer⟩, hspec.advanced.address, hspec.advanced.isOpen,
    hspec.advanced.sends, hspec.advanced.env⟩, fun done hd => ?_⟩, rfl, ?_⟩
  · show F.frames t.peer = _
    rw [hpeer, hframes, hd, List.append_assoc]
  cases o with
  | ok r =>
    obtain ⟨hr, hlen, hb, hless⟩ := hspec.returned r rfl
    rw [List.nil_append] at hr
    subst hr
    exact ⟨hlen, by rw [hb]; exact hbuf, hsplit, fun h0 => hless (by simpa using h0)⟩
  | error e =>
    obtain ⟨he, hnil, hb⟩ := hspec.raised e rfl
    subst hnil
    refine ⟨fun hnone => hpatient hnone e rfl, he, ?_, by simpa using hsplit⟩
    rcases hb with hb | hb
    · rw [hb]; exact hbuf
    · rw [hb]; rfl
  | running => exact hspec.blocked rfl

/-- After the header half either the header is in, and is that of the next frame, or the
position has not moved. -/
theorem readHeader_spec (deadline : Option ℤ) (hopen : d.io.isOpen = true)
    (hsoft : ∀ e ∈ d.io.env, e.Soft) (h : d.InFlight fs) :
    wp (readHeader deadline) (fun o d' => ∃ fs', ReadsFrom F d d' fs fs' ∧
      match o with
      | .ok (token, length) => ∃ f rest, fs' = f :: rest ∧ token = f.token ∧
          length = f.payload.length ∧ d'.InFlight fs' ∧
          d'.headerInProgress = some (packHeader f.token f.payload.length) ∧
          (d.headerInProgress = none → d'.io.env.length < d.io.env.length)
      | .error e => deadline ≠ none ∧ e = .timeout d.io.host d.io.port ∧ d'.InFlight fs'
      | .running => d'.io.env = []) d := by
  unfold readHeader
  rw [wp_bind, wp_read, bindPost_ok]
  cases hhead : d.headerInProgress with
  | some header =>
    have hbytes := h.bytes
    rw [hhead, Option.getD_some] at hbytes
    obtain ⟨f, rest, hfs, hheader, -⟩ := encodeFrames_header (h.header _ hhead) hbytes
    subst hheader
    simp only [parseHeader_pack, wp_ofExcept_ok]
    exact ⟨fs, ⟨Reads.refl d, fun _ hd => hd⟩, f, rest, hfs, rfl, rfl, h, hhead, by simp⟩
  | none =>
    have hbytes := h.bytes
    rw [hhead, Option.getD_none] at hbytes
    rw [wp_bind]
    refine (recvall_inFlight F 12 deadline hopen h.buffer hsoft hbytes).mono ?_
    rintro (r | e | _) d' ⟨fs', hreads, hsame, hpost⟩
    · obtain ⟨hlen, hbuf, hcut, hless⟩ := hpost
      rw [List.nil_append] at hcut
      obtain ⟨f, rest, hfs, hheader, -⟩ := encodeFrames_header hlen hcut
      rw [bindPost_ok, wp_bind, wp_modify, bindPost_ok]
      subst hheader
      rw [parseHeader_pack, wp_ofExcept_ok]
      refine ⟨fs', ⟨⟨?_, hreads.peer, hreads.address, hreads.isOpen, hreads.sends, hreads.env⟩,
        hreads.frames⟩,
        f, rest, hfs, rfl, rfl, ⟨hbuf, ?_, ?_⟩, rfl, fun _ => hless (by decide)⟩
      · rw [hreads.eq]
      · rintro _ ⟨⟩
        exact hlen
      · simpa using hcut
    · obtain ⟨hlate, he, hbuf, hcut⟩ := hpost
      refine ⟨fs', hreads, hlate, he, hbuf, ?_, ?_⟩
      · rw [hsame, hhead]
        simp
      · rw [hsame, hhead]
        exact hcut
    · exact ⟨fs', hreads, hpost⟩

/-- The `try` block hands out exactly the next frame, or times out in place. -/
theorem readFrame_spec (deadline : Option ℤ) (hopen : d.io.isOpen = true)
    (hsoft : ∀ e ∈ d.io.env, e.Soft) (h : d.InFlight fs) :
    wp (readFrame deadline) (fun o d' => ∃ fs', ReadsFrom F d d' fs fs' ∧
      match o with
      | .ok (token, buf) => ∃ f rest, fs' = f :: rest ∧ token = f.token ∧ buf = f.payload ∧
          d'.InFlight rest ∧ d'.headerInProgress = none ∧
          (d.headerInProgress = none → d'.io.env.length < d.io.env.length)
      | .error e => deadline ≠ none ∧ e = .timeout d.io.host d.io.port ∧ d'.InFlight fs'
      | .running => d'.io.env = []) d := by
  unfold readFrame
  rw [wp_bind]
  refine (readHeader_spec F deadline hopen hsoft h).mono ?_
  rintro (⟨token, length⟩ | e | _) d' ⟨fs', hreads, hpost⟩
  · obtain ⟨f, rest, hfs, rfl, rfl, hflight, hhead, hless⟩ := hpost
    have hbytes := hflight.bytes
    rw [hhead, Option.getD_some] at hbytes
    rw [bindPost_ok, wp_bind]
    refine (recvall_inFlight F f.payload.length deadline (hreads.isOpen.trans hopen) hflight.buffer
      (fun e he => hsoft e (hreads.env.subset he)) hbytes).mono ?_
    rintro (r | e | _) d'' ⟨fs'', hreads', hsame, hpost'⟩
    · obtain ⟨hlen, hbuf, hcut, -⟩ := hpost'
      obtain ⟨f', rest', hfs'', hheader, hrest⟩ := encodeFrames_header (length_packHeader ..) hcut
      -- the header is the one read before, so this is the frame it announced
      have hsameFrame := congrArg unpackHeader hheader
      simp only [unpackHeader_pack, Option.some.injEq, Prod.mk.injEq] at hsameFrame
      obtain ⟨hr, hincoming⟩ := List.append_inj hrest (by rw [hlen, hsameFrame.2])
      rw [bindPost_ok, wp_bind, wp_modify, bindPost_ok, wp_pure]
      have hall := hreads.trans hreads'
      refine ⟨fs'', ⟨⟨?_, hall.peer, hall.address, hall.isOpen, hall.sends, hall.env⟩, hall.frames⟩,
        f', rest', hfs'', hsameFrame.1, hr, ⟨hbuf, by simp, by simpa using hincoming⟩, rfl,
        fun hnone => hreads'.env.length_le.trans_lt (hless hnone)⟩
      rw [hall.eq]
    · obtain ⟨hlate, he, hbuf, hcut⟩ := hpost'
      refine ⟨fs'', hreads.trans hreads', hlate, ?_, hbuf, ?_, ?_⟩
      · rw [he, hreads.address.1, hreads.address.2]
      · rw [hsame]
        exact hflight.header
      · rw [hsame, hhead, Option.getD_some]
        exact hcut
    · exact ⟨fs'', hreads.trans hreads', hpost'⟩
  · exact ⟨fs', hreads, hpost⟩
  · exact ⟨fs', hreads, hpost⟩

end Reading
end Driver
end RethinkDB.Net
