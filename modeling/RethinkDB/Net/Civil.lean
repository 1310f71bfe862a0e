import RethinkDB.Net.Tidy

/-! Each call of the blocking driver is civil: whatever the socket does and whatever the server sends, it
raises a `ReqlError` or nothing. -/
namespace RethinkDB.Net
open RethinkDB.Lib Prog

variable {V : Type} {P : Peer V} {proper : Bytes → Prop} {n : ℕ} {b k : ℤ}

theorem Response.makeError_reql (res : Response V) (hres : res.Explained) (query : Query V) :
    ∃ e, res.makeError query = .ok e ∧ e.Reql := by
  have hdata : res.type = .clientError ∨ res.type = .compileError ∨ res.type = .runtimeError →
      ∃ v vs, res.data = v :: vs := fun htype => List.exists_cons_of_ne_nil (hres htype)
  unfold makeError
  cases htype : res.type with
  | clientError | compileError | runtimeError =>
    obtain ⟨v, vs, hcons⟩ := hdata (by simp [htype])
    simp only [hcons]
    exact ⟨_, rfl, trivial⟩
  | _ => exact ⟨_, rfl, trivial⟩

namespace Driver
variable {d : Driver P}

/-! ### Sending -/

/-- What has gone through may be followed by a read. -/
theorem sendQuery_civil {query : Query V} (h : d.Tidy proper n b k)
    (hquery : ∃ message, query.serialize = .ok message ∧ message ≠ []) :
    wp (sendQuery query) (Civil proper n b k fun _ d' => d.io.isOpen = true ∧ d'.io.isOpen = true ∧
      (d.InStep proper → d'.InStep proper) ∧ ∃ io, d' = { d with io }) d := by
  obtain ⟨message, hmessage, hne⟩ := hquery
  obtain ⟨hposted, hopen⟩ := Transport.sendall_posted (V := V) message h.sends
  unfold sendQuery
  rw [wp_ofExcept_bind_ok hmessage, wp_bind, socket, wp_zoom]
  unfold wp
  revert hposted hopen
  rcases Transport.sendall message d.io with ⟨a | e | _, io⟩
  · rintro ⟨hsub, sends, sent, rfl⟩ hopen
    refine ⟨h.of_same rfl rfl rfl rfl hsub rfl, hopen rfl hne, hopen rfl hne, ?_, _, rfl⟩
    rintro ⟨fs, hflight, hproper⟩
    exact ⟨fs, ⟨hflight.buffer, hflight.header, hflight.bytes⟩, hproper⟩
  · rintro ⟨hsub, hreql⟩ -
    exact ⟨h.of_same rfl rfl rfl rfl hsub rfl, hreql⟩
  · rintro ⟨-, hno⟩ -
    exact hno.elim

def termlessQuery (d : Driver P) (type : QueryType) (token : ℤ) : Query V :=
  { type, token, term := none, body := .ok (d.numbering.queryJson type), jsonDecoder := none
    noreply := false }

theorem wp_termless {type : QueryType} {token : ℤ} {α : Type} {f : Query V → Call P α}
    {Q : Outcome (Exn V) α → Driver P → Prop} :
    wp (termless type token >>= f) Q d ↔ wp (f (d.termlessQuery type token)) Q d := Iff.rfl

theorem termlessQuery_serialize (type : QueryType) {token : ℤ} (hnonneg : 0 ≤ token)
    (hlt : token < 2 ^ 64) :
    ∃ message, (d.termlessQuery type token).serialize = .ok message ∧ message ≠ [] :=
  Query.serialize_of rfl (d.numbering.queryJson_length type) hnonneg hlt

theorem checkOpen_civil (h : d.Tidy proper n b k) :
    wp checkOpen (Civil proper n b k fun _ d' => d' = d ∧ d.io.isOpen = true) d := by
  unfold checkOpen
  rw [wp_bind, wp_read, bindPost_ok, wp_ite]
  constructor
  · intro hopen
    exact ⟨h, rfl, hopen⟩
  · intro _
    exact ⟨h, trivial⟩

/-- The request a cursor sends for its next batch. -/
theorem maybeFetchBatch_civil {id : ℕ} {c : Cursor V} (h : d.Tidy proper n b k) (hb : b ≤ 2 ^ 64)
    (hid : n ≤ id) (hc : d.cursors[id]? = some c) (hpoised : d.Poised proper) :
    wp (maybeFetchBatch id) (Civil proper n b k fun _ d' => d'.Poised proper ∧
      d'.cursorCache = d.cursorCache ∧ d'.cursors[id]? = some c.fetch) d := by
  have hlt : id < d.cursors.length := (List.getElem?_eq_some_iff.mp hc).1
  obtain ⟨hnonneg, hless⟩ := h.tokens id c hid hc
  unfold maybeFetchBatch Cursor.fetch
  rw [cursor_of hc]
  split_ifs with hwants
  · let d₁ : Driver P := { d with cursors := d.cursors.set id c.request }
    have h₁ : d₁.Tidy proper n b k := h.set hc rfl rfl fun herr => herr
    have hc₁ : d₁.cursors[id]? = some c.request := by simp [d₁, hlt]
    have hserialize : ∃ message, (d₁.requestOf .cont c).serialize = .ok message ∧ message ≠ [] :=
      Query.serialize_of rfl (d.numbering.queryJson_length _) hnonneg (hless.trans_le hb)
    rw [wp_bind, modifyCursor_of hc, bindPost_ok]
    unfold cursorRequest
    refine Civil.bind le_rfl (checkOpen_civil h₁) ?_
    rintro _ _ - ⟨rfl, -⟩
    rw [cursor_of hc₁]
    refine (sendQuery_civil h₁ hserialize).mono ?_
    rintro (_ | e | _) d' hpost
    · obtain ⟨htidy, -, hopen, hstep, io, rfl⟩ := hpost
      exact ⟨htidy, ⟨hopen, hstep (hpoised.inStep.of_same rfl rfl)⟩, rfl, hc₁⟩
    · exact hpost
    · trivial
  · exact ⟨h, hpoised, rfl, hc⟩

/-! ### Batches -/

/-- A complete response is taken in by a registered cursor. -/
theorem extendInternal_civil {id : ℕ} {c : Cursor V} {res : Response V} (h : d.Tidy proper n b k)
    (hid : n ≤ id) (hc : d.cursors[id]? = some c) (hres : res.Explained)
    (htoken : res.token = c.query.token) (hmem : c.query.token ∈ d.cursorCache)
    (hpoised : d.Poised proper) :
    wp (extendInternal id res) (Civil proper n b k fun _ d' => d'.Poised proper) d := by
  have hlt : id < d.cursors.length := (List.getElem?_eq_some_iff.mp hc).1
  obtain ⟨error, hstore, hkept, hnone, -⟩ := c.store_explained res hres
  obtain ⟨c', hc'⟩ : ∃ c', c' = { c with
      threshold := res.data.length
      items := if c.error = none ∧ res.IsBatch then c.items ++ res.data else c.items
      error } := ⟨_, rfl⟩
  have hquery : c'.query = c.query := by rw [hc']
  have herror : c'.error = none → c.error = none := by
    rw [hc']
    exact fun herr => (hnone herr).1
  let d₁ : Driver P := { d with cursors := d.cursors.set id c' }
  have h₁ : d₁.Tidy proper n b k := h.set hc hquery (by rw [hc']) herror
  have hc₁ : d₁.cursors[id]? = some c' := by simp [d₁, hlt]
  unfold extendInternal storeResponse
  rw [wp_bind, cursor_of hc, hstore, ← hc']
  dsimp only
  rw [modifyCursor_of hc, bindPost_ok, cursor_of hc₁, wp_ite, wp_uncache, wp_pure]
  refine ⟨fun hover => ⟨fun _ => ⟨?_, hpoised.of_same rfl rfl⟩, fun hno => ?_⟩,
    fun _ => ⟨h₁, hpoised.of_same rfl rfl⟩⟩
  · rw [htoken, ← hquery]
    exact h₁.erase hid hc₁ hover.2
  · rw [htoken] at hno
    exact absurd hmem hno

/-- A frame for a cursor. -/
theorem extend_civil {token : ℤ} {id : ℕ} {buf : Bytes} (h : d.Tidy proper n b k) (hb : b ≤ 2 ^ 64)
    (hlookup : d.cursorCache.lookup token = some id) (hbuf : proper buf) (hpoised : d.Poised proper) :
    wp (extend id buf) (Civil proper n b k fun _ d' => d'.Poised proper) d := by
  obtain ⟨hid, c, hc, htoken⟩ := h.registered token id hlookup
  have hlt : id < d.cursors.length := (List.getElem?_eq_some_iff.mp hc).1
  obtain ⟨m, hm, hcomplete⟩ := h.sound id c hid hc buf hbuf
  let d₁ : Driver P := { d with cursors := d.cursors.set id c.answered }
  have h₁ : d₁.Tidy proper n b k := h.set hc rfl rfl fun herr => herr
  have hc₁ : d₁.cursors[id]? = some c.answered := by simp [d₁, hlt]
  have hpoised₁ : d₁.Poised proper := hpoised.of_same rfl rfl
  have hfetch : c.answered.fetch.query = c.query ∧ c.answered.fetch.jsonDecoder = c.jsonDecoder := by
    unfold Cursor.fetch
    split <;> exact ⟨rfl, rfl⟩
  unfold extend
  rw [wp_bind, modifyCursor_of hc, bindPost_ok]
  refine Civil.bind le_rfl (maybeFetchBatch_civil h₁ hb hid hc₁ hpoised₁) ?_
  rintro _ d₂ h₂ ⟨hpoised₂, hcache₂, hc₂⟩
  have hjson : (Response.ofJson c.answered.fetch.query.token buf c.answered.fetch.jsonDecoder :
      Except (Exn V) _) = .ok { m with token := c.answered.fetch.query.token } := by
    rw [hfetch.2, Response.ofJson, hm]
  rw [cursor_of hc₂, wp_ofExcept_bind_ok hjson]
  refine extendInternal_civil h₂ hid hc₂ hcomplete.explained rfl ?_ hpoised₂
  rw [hfetch.1, htoken, hcache₂, ← AList.lookup_isSome]
  show (d.cursorCache.lookup token).isSome
  rw [hlookup]
  rfl

/-- A response that opens a cursor. -/
theorem newCursor_civil {query : Query V} {first : Response V} (h : d.Tidy proper n b k) (hb : b < 2 ^ 64)
    (htoken : query.token = b) (hdecoder : Sound proper (d.getJsonDecoder query))
    (hfirst : first.Explained) (hsame : first.token = query.token) (hpoised : d.Poised proper) :
    wp (newCursor query first) (Civil proper n (b + 1) k fun _ d' => d'.Poised proper) d := by
  let new : Cursor V := ⟨query, [], 0, 1, none, d.getJsonDecoder query⟩
  have h₁ : (register query d).Tidy proper n (b + 1) k := h.register htoken hdecoder
  have hc₁ : (register query d).cursors[d.cursors.length]? = some new := List.getElem?_concat_length
  have hpoised₁ : (register query d).Poised proper := hpoised.of_same rfl rfl
  have hquery : new.fetch.query = query := by
    unfold Cursor.fetch
    split <;> rfl
  unfold newCursor
  rw [wp_bind, wp_read, bindPost_ok, wp_bind, wp_modify, bindPost_ok]
  refine Civil.bind le_rfl (maybeFetchBatch_civil h₁ (by omega) h.former hc₁ hpoised₁) ?_
  rintro _ d₂ h₂ ⟨hpoised₂, hcache₂, hc₂⟩
  refine Civil.bind le_rfl (extendInternal_civil h₂ h.former hc₂ hfirst ?_ ?_ hpoised₂) ?_
  · rw [hquery, hsame]
  · rw [hquery, hcache₂]
    show query.token ∈ d.cursorCache.insert query.token d.cursors.length
    rw [AList.mem_insert]
    exact .inl rfl
  · intro _ d₃ h₃ hpoised₃
    exact ⟨h₃, hpoised₃⟩

/-! ### Reading -/

/-- `recvall` on a stream of proper frames, of which `bytes` have been received. -/
theorem recvall_poised (hserver : P.Sends proper) (length : ℕ) {bytes : Bytes} {fs : List Frame}
    (hopen : d.io.isOpen = true) (hbuffer : d.io.readBuffer.getD [] = [])
    (hbytes : bytes ++ d.io.incoming = encodeFrames fs) (hproper : ∀ f ∈ fs, proper f.payload) :
    wp (socket (Transport.recvall length none)) (fun o d' => ∃ io, d' = { d with io } ∧ match o with
      | .ok r => r.length = length ∧ io.isOpen = true ∧ io.readBuffer.getD [] = [] ∧
          io.sends = d.io.sends ∧ ∃ fs', bytes ++ (r ++ io.incoming) = encodeFrames fs' ∧
            ∀ f ∈ fs', proper f.payload
      | .error e => e.Reql ∧ io.sends = d.io.sends
      | .running => True) d := by
  have hreturned := Transport.recvLoop_returned (V := V) length d.io.env [] (d.io.settimeout none) (by simp)
  have hset := Transport.remaining_advanced d.io none
  replace hreturned := hreturned.skip (t := d.io) hset rfl
  rw [socket, wp_zoom]
  unfold wp Transport.recvall
  simp only [Transport.remaining, hopen, if_true, hbuffer]
  refine ⟨_, rfl, ?_⟩
  revert hreturned
  rcases Transport.recvLoop (V := V) length d.io.env [] (d.io.settimeout none) with ⟨r | e | _, io⟩
  · rintro ⟨got, hadvanced, hr, hlength, hbuffer'⟩
    rw [List.nil_append] at hr
    subst hr
    obtain ⟨as, -, hgot⟩ := hadvanced.bytes
    obtain ⟨new, hnew, hproper'⟩ := hserver.acts d.io.peer as
    refine ⟨hlength, hadvanced.isOpen.trans hopen, by rw [hbuffer']; exact hbuffer, hadvanced.sends,
      fs ++ new, ?_, ?_⟩
    · rw [hgot, hnew, encodeFrames_append, ← List.append_assoc, hbytes]
    · intro f hf
      rcases List.mem_append.mp hf with hf | hf
      · exact hproper f hf
      · exact hproper' f hf
  · exact fun h => h
  · exact fun h => h

/-- The header half. -/
theorem readHeader_poised (hserver : P.Sends proper) (hpoised : d.Poised proper) :
    wp (readHeader none) (fun o d' => match o with
      | .ok (token, length) => ∃ f rest io, token = f.token ∧ length = f.payload.length ∧
          d' = { d with io, headerInProgress := some (packHeader f.token f.payload.length) } ∧
          io.sends = d.io.sends ∧ io.isOpen = true ∧ io.readBuffer.getD [] = [] ∧
          packHeader f.token f.payload.length ++ io.incoming = encodeFrames (f :: rest) ∧
          ∀ g ∈ f :: rest, proper g.payload
      | .error e => e.Reql ∧ ∃ io, d' = { d with io } ∧ io.sends = d.io.sends
      | .running => True) d := by
  obtain ⟨hopen, fs, hflight, hproper⟩ := hpoised
  have hbytes := hflight.bytes
  unfold readHeader
  rw [wp_bind, wp_read, bindPost_ok]
  cases hhead : d.headerInProgress with
  | some header =>
    rw [hhead, Option.getD_some] at hbytes
    obtain ⟨f, rest, rfl, rfl, -⟩ := encodeFrames_header (hflight.header _ hhead) hbytes
    simp only [parseHeader_pack, wp_ofExcept_ok]
    refine ⟨f, rest, d.io, rfl, rfl, by rw [← hhead], rfl, hopen, hflight.buffer, hbytes, hproper⟩
  | none =>
    rw [hhead, Option.getD_none] at hbytes
    rw [wp_bind]
    refine (recvall_poised hserver 12 hopen hflight.buffer hbytes hproper).mono ?_
    rintro (r | e | _) d' ⟨io, rfl, hpost⟩
    · obtain ⟨hlength, hopen', hbuffer, hsends, fs', hcut, hproper'⟩ := hpost
      rw [List.nil_append] at hcut
      obtain ⟨f, rest, rfl, rfl, -⟩ := encodeFrames_header hlength hcut
      rw [bindPost_ok, wp_bind, wp_modify, bindPost_ok, parseHeader_pack, wp_ofExcept_ok]
      exact ⟨f, rest, io, rfl, rfl, rfl, hsends, hopen', hbuffer, hcut, hproper'⟩
    · exact ⟨hpost.1, io, by rw [← hhead], hpost.2⟩
    · trivial

/-- A frame is proper, and leaves the reader ready for the next. -/
theorem readFrame_poised (hserver : P.Sends proper) (hpoised : d.Poised proper) :
    wp (readFrame none) (fun o d' => match o with
      | .ok (_, buf) => proper buf ∧ d'.Poised proper ∧
          ∃ io, d' = { d with io, headerInProgress := none } ∧ io.sends = d.io.sends
      | .error e => e.Reql ∧ ∃ io header, d' = { d with io, headerInProgress := header } ∧
          io.sends = d.io.sends
      | .running => True) d := by
  unfold readFrame
  rw [wp_bind]
  refine (readHeader_poised hserver hpoised).mono ?_
  rintro (⟨token, length⟩ | e | _) d₁ hpost
  · obtain ⟨f, rest, io, rfl, rfl, rfl, hsends, hopen, hbuffer, hbytes, hproper⟩ := hpost
    rw [bindPost_ok, wp_bind]
    refine (recvall_poised hserver _ hopen hbuffer hbytes hproper).mono ?_
    rintro (r | e | _) d₂ ⟨io', rfl, hpost'⟩
    · obtain ⟨hlength, hopen', hbuffer', hsends', fs', hcut, hproper'⟩ := hpost'
      obtain ⟨f', rest', rfl, hheader, hrest⟩ := encodeFrames_header (length_packHeader ..) hcut
      -- the header is the one read before, so this is the frame it announced
      have hsame := congrArg unpackHeader hheader
      simp only [unpackHeader_pack, Option.some.injEq, Prod.mk.injEq] at hsame
      obtain ⟨rfl, hincoming⟩ := List.append_inj hrest (by rw [hlength, hsame.2])
      rw [bindPost_ok, wp_bind, wp_modify, bindPost_ok, wp_pure]
      refine ⟨hproper' f' List.mem_cons_self, ⟨hopen', rest', ⟨hbuffer', nofun, ?_⟩, ?_⟩, io', rfl,
        hsends'.trans hsends⟩
      · simpa using hincoming
      · exact fun g hg => hproper' g (List.mem_cons_of_mem _ hg)
    · exact ⟨hpost'.1, io', _, rfl, hpost'.2.trans hsends⟩
    · trivial
  · obtain ⟨hreql, io, rfl, hsends⟩ := hpost
    exact ⟨hreql, io, d.headerInProgress, rfl, hsends⟩
  · trivial

/-- What `close` makes of the cursors. -/
theorem discards_tidy (h : d.Tidy proper n b k) {message : String} :
    wp (forEach (cursorError message) d.cachedCursors) (fun o d' => o = .ok () ∧
      ∃ cursors, ∃ cache : AList fun _ : ℤ => ℕ, d' = { d with cursors, cursorCache := cache } ∧
        Tidy proper n b k { d with cursors, cursorCache := ∅ }) d := by
  have hids : ∀ id ∈ d.cachedCursors, n ≤ id ∧ id < d.cursors.length := by
    intro id hid
    obtain ⟨token, hlookup⟩ := mem_cachedCursors.mp hid
    obtain ⟨hown, c, hc, -⟩ := h.registered token id hlookup
    exact ⟨hown, (List.getElem?_eq_some_iff.mp hc).1⟩
  refine (forEach_discards d.cachedCursors hids h.discardable).mono ?_
  rintro o d' ⟨rfl, cursors, cache, rfl, hlength, hall⟩
  have hback : ∀ (id : ℕ) (c' : Cursor V), cursors[id]? = some c' → ∃ c : Cursor V,
      d.cursors[id]? = some c ∧ if id ∈ d.cachedCursors then c.Discarded message c' else c' = c := by
    intro id c' hc'
    have hlt : id < d.cursors.length := by
      rw [← hlength]
      exact (List.getElem?_eq_some_iff.mp hc').1
    obtain ⟨c'', hc'', hpost⟩ := hall id _ (List.getElem?_eq_getElem hlt)
    obtain rfl : c' = c'' := Option.some.inj (hc'.symm.trans hc'')
    exact ⟨_, List.getElem?_eq_getElem hlt, hpost⟩
  refine ⟨rfl, cursors, cache, rfl, h.keeps hlength ?_ ?_ ?_⟩
  · intro id c' hc'
    obtain ⟨c, hc, hpost⟩ := hback id c' hc'
    split_ifs at hpost
    · exact ⟨c, hc, hpost.query, hpost.decoder⟩
    · exact ⟨c, hc, by rw [hpost], by rw [hpost]⟩
  · intro id c' hid hc' herr
    obtain ⟨c, hc, hpost⟩ := hback id c' hc'
    split_ifs at hpost with hmem
    · rw [hpost.error] at herr
      cases herr
    · -- an open cursor is in the cache, under its own token
      rw [hpost] at herr
      have hcached := h.cached id c hid hc herr
      rw [← AList.lookup_isSome, Option.isSome_iff_exists] at hcached
      obtain ⟨id', hlookup⟩ := hcached
      obtain ⟨hid', c₁, hc₁, htoken⟩ := h.registered _ id' hlookup
      obtain rfl := h.distinct id id' c c₁ hid hid' hc hc₁ htoken.symm
      exact absurd (mem_cachedCursors.mpr ⟨_, hlookup⟩) hmem
  · intro token id hlookup
    rw [AList.lookup_empty] at hlookup
    cases hlookup

theorem close_civil (h : d.Tidy proper n b k) :
    wp close (Civil proper n b k fun _ d' => d'.io.isOpen = false) d := by
  have h₁ : Tidy proper n b k { d with closing := true } := h.of_same rfl rfl rfl rfl (List.Subset.refl _) rfl
  unfold close
  rw [wp_bind, wp_modify, bindPost_ok, wp_bind, wp_read, bindPost_ok, wp_bind]
  refine (discards_tidy h₁).mono ?_
  rintro o d' ⟨rfl, cursors, cache, rfl, htidy⟩
  rw [bindPost_ok, wp_modify]
  exact ⟨htidy.of_same rfl rfl rfl rfl (List.Subset.refl _) rfl, rfl⟩

/-- What a query finds for itself. The induction is on the turns left. -/
theorem readLoop_civil (hserver : P.Sends proper) {query : Query V} (hfresh : b ≤ query.token)
    (hb : b ≤ 2 ^ 64) (hquery : ∀ decoder, query.jsonDecoder = some decoder → Sound proper decoder)
    (turns : ℕ) (h : d.Tidy proper n b k) (hpoised : d.Poised proper) :
    wp (readLoop query none turns) (Civil proper n b k fun res d' => ∃ m : Message V,
      res = some { m with token := query.token } ∧ m.Complete ∧ d'.Poised proper) d := by
  induction turns generalizing d with
  | zero => trivial
  | succ turns ih =>
    unfold readLoop
    rw [wp_bind]
    refine (readFrame_poised hserver hpoised).mono ?_
    rintro (⟨token, buf⟩ | e | _) d₁ hpost
    · obtain ⟨hbuf, hpoised₁, io, rfl, hsends⟩ := hpost
      rw [bindPost_ok, wp_bind, wp_read, bindPost_ok]
      have h₁ : ∀ handed, Tidy proper n b k { d with io, headerInProgress := none, handed } :=
        fun _ => h.of_same rfl rfl rfl rfl (fun o ho => by rwa [← hsends]) rfl
      have hhand : ∀ handed, Poised proper { d with io, headerInProgress := none, handed } :=
        fun _ => hpoised₁.of_same rfl rfl
      cases hlookup : d.cursorCache.lookup token with
      | some id =>
        dsimp only
        rw [wp_bind, hand, wp_modify, bindPost_ok]
        refine Civil.bind le_rfl (extend_civil (h₁ _) hb hlookup hbuf (hhand _)) ?_
        intro _ d₂ h₂ hpoised₂
        obtain ⟨hid, c, hc, htoken⟩ := h.registered token id hlookup
        have hne : token ≠ query.token := by
          have := (h.tokens id c hid hc).2
          omega
        rw [if_neg hne]
        exact ih h₂ hpoised₂
      | none =>
        dsimp only
        split_ifs with hmine
        · rw [wp_bind, hand, wp_modify, bindPost_ok, wp_bind, wp_read, bindPost_ok]
          obtain ⟨m, hm, hcomplete⟩ := h.decoder hquery buf hbuf
          have hjson : (Response.ofJson token buf (d.getJsonDecoder query) : Except (Exn V) _) =
              .ok { m with token } := by
            rw [Response.ofJson, hm]
          refine (wp_ofExcept_bind_ok hjson).mpr ?_
          rw [wp_pure]
          exact ⟨h₁ _, m, by rw [hmine], hcomplete, hhand _⟩
        · rw [wp_bind, hand, wp_modify, bindPost_ok, wp_bind, wp_read, bindPost_ok, wp_ite]
          constructor
          · intro _
            exact ih (h₁ _) (hhand _)
          · intro _
            refine Civil.bind le_rfl (close_civil (h₁ _)) ?_
            intro _ d₂ h₂ _
            exact ⟨h₂, trivial⟩
    · obtain ⟨hreql, io, header, rfl, hsends⟩ := hpost
      exact ⟨h.of_same rfl rfl rfl rfl (fun o ho => by rwa [← hsends]) rfl, hreql⟩
    · trivial

/-! ### Queries -/

/-- What the user gets for a complete response. -/
theorem replyTo_civil {query : Query V} {m : Message V} (h : d.Tidy proper n b k) (hb : b < 2 ^ 64)
    (htoken : query.token = b)
    (hquery : ∀ decoder, query.jsonDecoder = some decoder → Sound proper decoder)
    (hm : m.Complete) (hpoised : d.Poised proper) :
    wp (replyTo query { m with token := query.token }) (Civil proper n (b + 1) k fun _ _ => True) d := by
  have h' : d.Tidy proper n (b + 1) k := h.mono (by omega)
  have hdatum : m.type = .successAtom ∨ m.type = .serverInfo →
      ∃ v, (firstDatum { m with token := query.token } : Except (Exn V) V) = .ok v :=
    fun htype => firstDatum_of _ (hm.datum htype)
  have hcursor : ∀ profile : ℕ → Reply V, wp (newCursor query { m with token := query.token } >>=
      fun id => pure (profile id)) (Civil proper n (b + 1) k fun _ _ => True) d := by
    intro profile
    refine Civil.bind le_rfl (newCursor_civil h hb htoken (h.decoder hquery) hm.explained rfl hpoised) ?_
    intro _ d₁ h₁ _
    exact ⟨h₁, trivial⟩
  unfold replyTo
  cases htype : m.type with
  | successAtom =>
    obtain ⟨v, hv⟩ := hdatum (.inl htype)
    dsimp only
    rw [wp_ofExcept_bind_ok hv]
    exact ⟨h', trivial⟩
  | serverInfo =>
    obtain ⟨v, hv⟩ := hdatum (.inr htype)
    dsimp only
    rw [wp_ofExcept_bind_ok hv]
    exact ⟨h', trivial⟩
  | successPartial =>
    dsimp only
    exact hcursor _
  | successSequence =>
    dsimp only
    exact hcursor _
  | waitComplete =>
    dsimp only
    exact ⟨h', trivial⟩
  | clientError | compileError | runtimeError | other _ =>
    obtain ⟨e, he, hreql⟩ := Response.makeError_reql { m with token := query.token } hm.explained query
    dsimp only
    rw [wp_ofExcept_bind_ok he]
    exact ⟨h', hreql⟩

theorem runQuery_civil (hserver : P.Sends proper) {query : Query V} (noreply : Bool)
    (h : d.Tidy proper n b k) (hb : b < 2 ^ 64) (htoken : query.token = b)
    (hserialize : ∃ message, query.serialize = .ok message ∧ message ≠ [])
    (hquery : ∀ decoder, query.jsonDecoder = some decoder → Sound proper decoder)
    (hstep : d.InStep proper) :
    wp (runQuery query noreply) (Civil proper n (b + 1) k fun _ _ => True) d := by
  unfold runQuery
  refine Civil.bind (by omega) (sendQuery_civil h hserialize) ?_
  rintro _ d₁ h₁ ⟨-, hopen, hstep₁, -⟩
  split_ifs
  · exact ⟨h₁.mono (by omega), trivial⟩
  · unfold readResponse
    rw [wp_bind, wp_bind, wp_read, bindPost_ok, ← wp_bind]
    refine Civil.bind (by omega) (readLoop_civil hserver htoken.ge hb.le hquery _ h₁
      ⟨hopen, hstep₁ hstep⟩) ?_
    rintro _ d₂ h₂ ⟨m, rfl, hm, hpoised₂⟩
    exact replyTo_civil h₂ hb htoken hquery hm hpoised₂

/-- The next query takes the next token. -/
theorem asking_civil (h : d.Tidy proper n b b) {f : ℤ → Call P (Reply V)}
    (hf : d.io.isOpen = true → Tidy proper n b (b + 1) { d with nextToken := d.nextToken + 1 } →
      wp (f b) (Civil proper n (b + 1) (b + 1) fun _ _ => True) { d with nextToken := d.nextToken + 1 }) :
    wp (checkOpen >>= fun _ => newToken >>= f) (fun o d' => o ≠ .running →
      d'.Tidy proper n d'.nextToken d'.nextToken ∧ ∀ e, o = .error e → e.Reql) d := by
  have hover : ∀ (o : Outcome (Exn V) (Reply V)) (d' : Driver P) (b' : ℤ),
      Civil proper n b' b' (fun _ _ => True) o d' → o ≠ .running →
        d'.Tidy proper n d'.nextToken d'.nextToken ∧ ∀ e, o = .error e → e.Reql := by
    rintro (a | e | _) d' b' hpost hback
    · rw [hpost.1.next]
      exact ⟨hpost.1, nofun⟩
    · rw [hpost.1.next]
      refine ⟨hpost.1, ?_⟩
      rintro _ ⟨⟩
      exact hpost.2
    · exact absurd rfl hback
  obtain rfl := h.next
  rw [wp_bind]
  refine (checkOpen_civil h).mono ?_
  rintro (_ | e | _) d₁ hpost
  · obtain ⟨-, rfl, hopen⟩ := hpost
    have h₁ : Tidy proper n d₁.nextToken (d₁.nextToken + 1) { d₁ with nextToken := d₁.nextToken + 1 } :=
      { h with next := rfl }
    unfold newToken
    rw [bindPost_ok, wp_bind, wp_bind, wp_read, bindPost_ok, wp_bind, wp_modify, bindPost_ok, wp_pure,
      bindPost_ok]
    exact (hf hopen h₁).mono fun o d' hpost => hover o d' _ hpost
  · exact hover _ _ _ hpost
  · exact fun hback => absurd rfl hback

/-- A query of an open connection. -/
theorem start_civil (hserver : P.Sends proper) (term : Option V) {body : Bytes}
    (hbody : body.length < 2 ^ 32) {jsonDecoder : Option (Decoder V)}
    (hdecoder : ∀ decoder, jsonDecoder = some decoder → Sound proper decoder) (noreply : Bool)
    (h : d.Tidy proper n b b) (hb : b < 2 ^ 64) (hstep : d.InStep proper) :
    wp (start term (.ok body) jsonDecoder noreply) (fun o d' => o ≠ .running →
      d'.Tidy proper n d'.nextToken d'.nextToken ∧ ∀ e, o = .error e → e.Reql) d := by
  refine asking_civil h fun hopen h₁ => ?_
  exact runQuery_civil hserver noreply h₁ hb rfl (Query.serialize_of rfl hbody h.bound hb) hdecoder
    (hstep.of_same rfl rfl)

theorem control_civil (hserver : P.Sends proper) (type : QueryType) (h : d.Tidy proper n b b)
    (hb : b < 2 ^ 64) (hstep : d.InStep proper) :
    wp (control type) (fun o d' => o ≠ .running →
      d'.Tidy proper n d'.nextToken d'.nextToken ∧ ∀ e, o = .error e → e.Reql) d := by
  refine asking_civil h fun hopen h₁ => ?_
  rw [wp_termless]
  exact runQuery_civil hserver false h₁ hb rfl (termlessQuery_serialize _ h.bound hb) nofun
    (hstep.of_same rfl rfl)

/-! ### Closing -/

theorem runDetached_civil (hserver : P.Sends proper) {query : Query V} (h : d.Tidy proper n b k)
    (hb : b < 2 ^ 64) (htoken : query.token = b)
    (hserialize : ∃ message, query.serialize = .ok message ∧ message ≠ [])
    (hquery : query.jsonDecoder = none) (hstep : d.io.isOpen = true → d.InStep proper) :
    wp (runDetached query) (Civil proper n (b + 1) k fun _ _ => True) d := by
  have hnone : ∀ decoder, query.jsonDecoder = some decoder → Sound proper decoder := by
    rw [hquery]
    exact nofun
  unfold runDetached
  refine Civil.bind (by omega) (sendQuery_civil h hserialize) ?_
  rintro _ d₁ h₁ ⟨hopen, hopen₁, hstep₁, -⟩
  unfold readResponse
  rw [wp_bind, wp_bind, wp_read, bindPost_ok, ← wp_bind]
  refine Civil.bind (by omega) (readLoop_civil hserver htoken.ge hb.le hnone _ h₁
    ⟨hopen₁, hstep₁ (hstep hopen)⟩) ?_
  rintro _ d₂ h₂ ⟨m, rfl, hm, -⟩
  have h' : d₂.Tidy proper n (b + 1) k := h₂.mono (by omega)
  have hdatum : m.type = .successAtom ∨ m.type = .serverInfo →
      ∃ v, (firstDatum { m with token := query.token } : Except (Exn V) V) = .ok v :=
    fun htype => firstDatum_of _ (hm.datum htype)
  have hbatch : wp (read (fun d => d.cursors.length) >>= fun id => modify (register query) >>=
      fun _ => modifyCursor id Cursor.request >>= fun _ => throw (.driver "Connection is closed.") :
        Call P Unit) (Civil proper n (b + 1) k fun _ _ => True) d₂ := by
    have hc : (register query d₂).cursors[d₂.cursors.length]? =
        some ⟨query, [], 0, 1, none, d₂.getJsonDecoder query⟩ := List.getElem?_concat_length
    rw [wp_bind, wp_read, bindPost_ok, wp_bind, wp_modify, bindPost_ok, wp_bind, modifyCursor_of hc,
      bindPost_ok, wp_throw]
    exact ⟨(h₂.register htoken (h₂.decoder hnone)).set hc rfl rfl fun herr => herr, trivial⟩
  dsimp only
  cases htype : m.type with
  | successAtom =>
    obtain ⟨v, hv⟩ := hdatum (.inl htype)
    dsimp only
    rw [wp_ofExcept_bind_ok hv]
    exact ⟨h', trivial⟩
  | serverInfo =>
    obtain ⟨v, hv⟩ := hdatum (.inr htype)
    dsimp only
    rw [wp_ofExcept_bind_ok hv]
    exact ⟨h', trivial⟩
  | successPartial => exact hbatch
  | successSequence => exact hbatch
  | waitComplete => exact ⟨h', trivial⟩
  | clientError | compileError | runtimeError | other _ =>
    obtain ⟨e, he, hreql⟩ := Response.makeError_reql { m with token := query.token } hm.explained query
    dsimp only
    rw [wp_ofExcept_bind_ok he]
    exact ⟨h', hreql⟩

/-- A close finishes the cursors, whatever comes of the wait. -/
theorem closeInstance_of (h : d.Tidy proper n b k) {noreplyWait : Bool} {token : ℤ}
    {Q : Outcome (Exn V) Unit → Driver P → Prop}
    (hrest : ∀ cursors, Tidy proper n b k { d with closing := true, cursors, cursorCache := ∅ } →
      wp (ensure shut (if noreplyWait = true then termless .noreplyWait token >>= runDetached else pure ()))
        Q { d with closing := true, cursors, cursorCache := ∅ }) :
    wp (closeInstance noreplyWait token) Q d := by
  have h₁ : Tidy proper n b k { d with closing := true } :=
    h.of_same rfl rfl rfl rfl (List.Subset.refl _) rfl
  unfold closeInstance
  rw [wp_bind, wp_modify, bindPost_ok, wp_bind, wp_read, bindPost_ok, wp_bind]
  refine (discards_tidy h₁).mono ?_
  rintro o d' ⟨rfl, cursors, cache, rfl, htidy⟩
  rw [bindPost_ok, wp_bind, wp_modify, bindPost_ok]
  exact hrest cursors htidy

theorem closeInstance_civil (hserver : P.Sends proper) (noreplyWait : Bool) {token : ℤ}
    (h : d.Tidy proper n b k) (htoken : token = b) (hb : noreplyWait = true → b < 2 ^ 64)
    (hstep : noreplyWait = true → d.io.isOpen = true → d.InStep proper) :
    wp (closeInstance noreplyWait token) (fun o d' => (noreplyWait = false → o = .ok ()) ∧
      (o ≠ .running → d'.Tidy proper n (b + 1) k ∧ d'.io.isOpen = false) ∧
      ∀ e, o = .error e → e.Reql) d := by
  subst htoken
  refine closeInstance_of h fun cursors htidy => ?_
  have hshut : ∀ d' : Driver P, d'.Tidy proper n (token + 1) k → d'.shut.Tidy proper n (token + 1) k :=
    fun d' h' => h'.of_same rfl rfl rfl rfl (List.Subset.refl _) rfl
  cases noreplyWait with
  | false =>
    rw [if_neg nofun, wp_ensure, wp_pure]
    exact ⟨fun _ => rfl, fun _ => ⟨hshut _ (htidy.mono (by omega)), rfl⟩, nofun⟩
  | true =>
    rw [if_pos rfl, wp_ensure, wp_termless]
    refine (runDetached_civil hserver htidy (hb rfl) rfl
      (termlessQuery_serialize _ h.bound (hb rfl)) rfl fun hopen => (hstep rfl hopen).of_same rfl rfl).mono ?_
    rintro (_ | e | _) d' hpost
    · exact ⟨nofun, fun _ => ⟨hshut d' hpost.1, rfl⟩, nofun⟩
    · refine ⟨nofun, fun _ => ⟨hshut d' hpost.1, rfl⟩, ?_⟩
      rintro _ ⟨⟩
      exact hpost.2
    · exact ⟨nofun, fun hover => absurd rfl hover, nofun⟩

end Driver
end RethinkDB.Net
