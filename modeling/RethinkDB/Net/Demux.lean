import RethinkDB.Net.Accounting
import RethinkDB.Net.Resume

/-! Demultiplexing: every operation on an open connection to a conforming server keeps the
books, and what it returns is what the server answered under the operation's own token. -/
namespace RethinkDB.Net
open RethinkDB.Lib Prog

variable {V : Type}

theorem Cursor.respond_of_store {c c' : Cursor V} {res : Response V}
    (hstore : c.answered.store res = .ok c') :
    c.answered.fetch.store res = .ok (c.respond res) ∧
      c.respond res = if c.answered.WantsBatch then c'.request else c' := by
  have hfetch : c.answered.fetch.store res =
      .ok (if c.answered.WantsBatch then c'.request else c') := by
    unfold fetch
    split_ifs
    · rw [store_request, hstore]
      rfl
    · exact hstore
  rw [respond, hfetch]
  exact ⟨rfl, rfl⟩

/-- What the user gets for a response to `query`; `id` is the cursor a batch opens. -/
def Response.outcome (query : Query V) (id : ℕ) (res : Response V) : Outcome (Exn V) (Reply V) :=
  let datum (f : V → Reply V) : Outcome (Exn V) (Reply V) :=
    match Driver.firstDatum res with
    | .ok v => .ok (f v)
    | .error e => .error e
  match res.type with
  | .successAtom => datum fun v => maybeProfile (.value v) res
  | .successPartial | .successSequence => .ok (maybeProfile (.cursor id) res)
  | .waitComplete => .ok .none
  | .serverInfo => datum .value
  | _ => match res.makeError query with
    | .ok e | .error e => .error e

theorem Response.outcome_batch {res : Response V} (hres : res.IsBatch) (query : Query V) (id : ℕ) :
    res.outcome query id = .ok (maybeProfile (.cursor id) res) := by
  unfold outcome
  rcases hres with htype | htype <;> rw [htype]

namespace Driver

variable {P : Peer V} {d d' : Driver P}

structure Up (d : Driver P) : Prop where
  isOpen : d.io.isOpen = true
  closing : d.closing = false
  sends : ∀ o ∈ d.io.sends, o.Soft

/-- The server has been told of `qs`; nothing else happened but to cursors and cache. -/
structure Sent (qs : List (Query V)) (d d' : Driver P) : Prop where
  peer : d'.io.peer = qs.foldl P.receive d.io.peer
  soft : ∀ o ∈ d'.io.sends, o.Soft
  eq : d' = { d with
    io := { d.io with sends := d'.io.sends, sent := d'.io.sent, peer := d'.io.peer }
    cursors := d'.cursors
    cursorCache := d'.cursorCache }

theorem Sent.refl (hup : d.Up) : Sent [] d d := ⟨rfl, hup.sends, rfl⟩

theorem Sent.up {qs : List (Query V)} (h : Sent qs d d') (hup : d.Up) : d'.Up := by
  have heq := h.eq
  exact ⟨by rw [heq]; exact hup.isOpen, by rw [heq]; exact hup.closing, h.soft⟩

theorem sendLoop_soft (sends : List SendOutcome) (hsoft : ∀ o ∈ sends, o.Soft) (data : Bytes)
    (t : Transport P) : ∃ sends' sent, (∀ o ∈ sends', o.Soft) ∧
      Transport.sendLoop sends data t = (.ok (), { t with sends := sends', sent }) := by
  induction sends generalizing data t with
  | nil => exact ⟨[], _, by simp, rfl⟩
  | cons o sends ih =>
    have hrest : ∀ o ∈ sends, o.Soft := fun o ho => hsoft o (List.mem_cons_of_mem _ ho)
    have ho := hsoft o (List.mem_cons_self ..)
    by_cases h : data = []
    · exact ⟨o :: sends, t.sent, hsoft, by simp [Transport.sendLoop, h]⟩
    · simp only [Transport.sendLoop, if_neg h]
      cases o with
      | accept k => exact ih hrest _ _
      | eintr => exact ih hrest _ _
      | connReset | osError text | exception text | interrupt _ text => exact ho.elim

/-- An open socket that keeps accepting takes the whole query. -/
theorem sendQuery_accepted (hopen : d.io.isOpen = true) (hsends : ∀ o ∈ d.io.sends, o.Soft)
    {q : Query V} {message : Bytes} (hq : q.serialize = .ok message) :
    ∃ sends sent, (∀ o ∈ sends, o.Soft) ∧ sendQuery q d =
      (.ok (), { d with io := { d.io with sends, sent, peer := P.receive d.io.peer q } }) := by
  have hsend : ∃ sends sent, (∀ o ∈ sends, o.Soft) ∧
      Transport.sendall message d.io = (.ok (), { d.io with sends, sent }) := by
    unfold Transport.sendall
    split_ifs with hnil
    · exact ⟨_, _, hsends, rfl⟩
    · exact sendLoop_soft _ hsends message d.io
  obtain ⟨sends, sent, hsoft, heq⟩ := hsend
  refine ⟨sends, sent, hsoft, eq_of_wp ?_⟩
  unfold sendQuery
  rw [hq, wp_bind, wp_ofExcept_ok, bindPost_ok, wp_bind, socket, wp_zoom, wp, heq, bindPost_ok,
    wp_modify]
  exact ⟨rfl, rfl⟩

theorem sendQuery_sent (hup : d.Up) {q : Query V} {message : Bytes}
    (hq : q.serialize = .ok message) :
    wp (sendQuery q) (fun o d' => o = .ok () ∧ Sent [q] d d' ∧ d'.cursors = d.cursors ∧
      d'.cursorCache = d.cursorCache) d := by
  obtain ⟨sends, sent, hsoft, heq⟩ := sendQuery_accepted hup.isOpen hup.sends hq
  rw [wp_of_eq heq]
  exact ⟨rfl, ⟨rfl, hsoft, rfl⟩, rfl, rfl⟩

theorem checkOpen_up (hup : d.Up) {α : Type} {f : Unit → Call P α}
    {Q : Outcome (Exn V) α → Driver P → Prop} : wp (checkOpen >>= f) Q d ↔ wp (f ()) Q d := by
  simp [checkOpen, hup.isOpen]

theorem cursor_of {id : ℕ} {c : Cursor V} (hc : d.cursors[id]? = some c) {α : Type}
    {f : Cursor V → Call P α} {Q : Outcome (Exn V) α → Driver P → Prop} :
    wp (cursor id >>= f) Q d ↔ wp (f c) Q d := by
  simp [wp_cursor, hc]

theorem set_of {id : ℕ} {c : Cursor V} (hc : d.cursors[id]? = some c) :
    d.cursors.set id c = d.cursors := by
  obtain ⟨hlt, rfl⟩ := List.getElem?_eq_some_iff.mp hc
  exact List.set_getElem_self hlt

theorem modifyCursor_of {id : ℕ} {c : Cursor V} (hc : d.cursors[id]? = some c)
    (g : Cursor V → Cursor V) {Q : Outcome (Exn V) Unit → Driver P → Prop} :
    wp (modifyCursor id g) Q d ↔ Q (.ok ()) { d with cursors := d.cursors.set id (g c) } := by
  rw [modifyCursor, wp_modify, modify_eq_set hc]

def requestOf (d : Driver P) (type : QueryType) (c : Cursor V) : Query V :=
  { type, token := c.query.token, term := none, body := .ok (d.numbering.queryJson type)
    jsonDecoder := none, noreply := false }

theorem cursorRequest_sent (hup : d.Up) {id : ℕ} {c : Cursor V} (hc : d.cursors[id]? = some c)
    (htoken : 0 ≤ c.query.token ∧ c.query.token < 2 ^ 63) (type : QueryType) :
    wp (cursorRequest type id) (fun o d' => o = .ok () ∧ Sent [d.requestOf type c] d d' ∧
      d'.cursors = d.cursors ∧ d'.cursorCache = d.cursorCache) d := by
  have hserialize : ∃ message, (d.requestOf type c).serialize = .ok message := by
    have hlen := d.numbering.queryJson_length type
    exact ⟨_, if_pos ⟨htoken.1, by show c.query.token < 2 ^ 64; omega, hlen⟩⟩
  obtain ⟨message, hmessage⟩ := hserialize
  unfold cursorRequest
  rw [checkOpen_up hup, cursor_of hc]
  exact sendQuery_sent hup hmessage

theorem maybeFetchBatch_sent (hup : d.Up) {id : ℕ} {c : Cursor V} (hc : d.cursors[id]? = some c)
    (htoken : 0 ≤ c.query.token ∧ c.query.token < 2 ^ 63) :
    wp (maybeFetchBatch id) (fun o d' => o = .ok () ∧
      Sent (if c.WantsBatch then [d.requestOf .cont c] else []) d d' ∧
      d'.cursors = d.cursors.set id c.fetch ∧ d'.cursorCache = d.cursorCache) d := by
  have hlt : id < d.cursors.length := (List.getElem?_eq_some_iff.mp hc).1
  unfold maybeFetchBatch Cursor.fetch
  rw [cursor_of hc, wp_ite]
  refine ⟨fun hwants => ?_, fun hwants => ?_⟩
  · rw [if_pos hwants, if_pos hwants, wp_bind, modifyCursor_of hc, bindPost_ok]
    have hup' : Up { d with cursors := d.cursors.set id c.request } :=
      ⟨hup.isOpen, hup.closing, hup.sends⟩
    have hc' : (d.cursors.set id c.request)[id]? = some c.request := by simp [hlt]
    refine (cursorRequest_sent hup' hc' htoken .cont).mono ?_
    rintro o d' ⟨rfl, hsent, hcur, hcache⟩
    exact ⟨rfl, ⟨hsent.peer, hsent.soft, hsent.eq⟩, hcur, hcache⟩
  · rw [if_neg hwants, if_neg hwants, wp_pure]
    exact ⟨rfl, .refl hup, (set_of hc).symm, rfl⟩

/-- What `_extend` does to a cursor it is right to call. -/
theorem extend_sent (hup : d.Up) {id : ℕ} {c c' : Cursor V} (hc : d.cursors[id]? = some c)
    (htoken : 0 ≤ c.query.token ∧ c.query.token < 2 ^ 63) {buf : Bytes} {m : Message V}
    (hdec : c.jsonDecoder buf = .ok m)
    (hstore : c.answered.store { m with token := c.query.token } = .ok c')
    (hcached : c.query.token ∈ d.cursorCache) :
    let c'' := c.respond { m with token := c.query.token }
    wp (extend id buf) (fun o d' => o = .ok () ∧
      Sent (if c.answered.WantsBatch then [d.requestOf .cont c] else []) d d' ∧
      d'.cursors = d.cursors.set id c'' ∧
      d'.cursorCache = if c''.outstandingRequests = 0 ∧ c''.error ≠ none
        then d.cursorCache.erase c.query.token else d.cursorCache) d := by
  intro c''
  have hlt : id < d.cursors.length := (List.getElem?_eq_some_iff.mp hc).1
  have hset : ∀ e : Cursor V, (d.cursors.set id e)[id]? = some e := fun e => by simp [hlt]
  unfold extend
  rw [wp_bind, modifyCursor_of hc, bindPost_ok, wp_bind]
  have hup' : Up { d with cursors := d.cursors.set id c.answered } :=
    ⟨hup.isOpen, hup.closing, hup.sends⟩
  refine (maybeFetchBatch_sent hup' (hset _) htoken).mono ?_
  rintro o d₁ ⟨rfl, hsent, hcur, hcache⟩
  rw [List.set_set] at hcur
  have hc₁ : d₁.cursors[id]? = some c.answered.fetch := by rw [hcur, hset]
  have hfetch : c.answered.fetch.query = c.query ∧ c.answered.fetch.jsonDecoder = c.jsonDecoder := by
    unfold Cursor.fetch
    split_ifs <;> exact ⟨rfl, rfl⟩
  have hjson : (Response.ofJson c.answered.fetch.query.token buf c.answered.fetch.jsonDecoder :
      Except (Exn V) _) = .ok { m with token := c.query.token } := by
    rw [hfetch.1, hfetch.2, Response.ofJson, hdec]
  rw [bindPost_ok, cursor_of hc₁, hjson, wp_bind, wp_ofExcept_ok, bindPost_ok]
  unfold extendInternal storeResponse
  rw [wp_bind, cursor_of hc₁, (Cursor.respond_of_store hstore).1]
  dsimp only
  rw [modifyCursor_of hc₁, bindPost_ok]
  have hcur₂ : d₁.cursors.set id c'' = d.cursors.set id c'' := by rw [hcur, List.set_set]
  have hc₂ : (d₁.cursors.set id c'')[id]? = some c'' := by rw [hcur₂, hset]
  rw [cursor_of hc₂, wp_ite, wp_uncache, wp_pure]
  have hmem : c.query.token ∈ d₁.cursorCache := by rw [hcache]; exact hcached
  refine ⟨fun hdone => ⟨fun _ => ⟨rfl, ?_, hcur₂, ?_⟩, fun hno => absurd hmem hno⟩,
    fun hdone => ⟨rfl, ?_, hcur₂, ?_⟩⟩
  · exact ⟨hsent.peer, hsent.soft, by rw [hsent.eq]⟩
  · rw [if_pos hdone]
    show AList.erase _ d₁.cursorCache = _
    rw [hcache]
  · exact ⟨hsent.peer, hsent.soft, by rw [hsent.eq]⟩
  · rw [if_neg hdone]
    exact hcache

/-- `DefaultCursor.__init__` on a connection in use. -/
theorem newCursor_sent (hup : d.Up) {q : Query V} (htoken : 0 ≤ q.token ∧ q.token < 2 ^ 63)
    {res : Response V} (hbatch : res.IsBatch) :
    wp (newCursor q res) (fun o d' => o = .ok d.cursors.length ∧
      Sent [d.requestOf .cont ⟨q, [], 0, 1, none, d.getJsonDecoder q⟩] d d' ∧
      d'.cursors = d.cursors ++ [.opened q (d.getJsonDecoder q) res] ∧
      d'.cursorCache = d.cursorCache.insert q.token d.cursors.length) d := by
  let c₀ : Cursor V := ⟨q, [], 0, 1, none, d.getJsonDecoder q⟩
  let c := (c₀.stored res).request
  have hopened : c = .opened q (d.getJsonDecoder q) res := (Cursor.opened_batch hbatch q _).symm
  unfold newCursor
  rw [← hopened, wp_bind, wp_read, bindPost_ok, wp_bind, wp_modify, bindPost_ok, wp_bind]
  have hup' : (register q d).Up := ⟨hup.isOpen, hup.closing, hup.sends⟩
  have hc₀ : (register q d).cursors[d.cursors.length]? = some c₀ := by
    simp [register, c₀]
  refine (maybeFetchBatch_sent hup' hc₀ htoken).mono ?_
  rintro o d₁ ⟨rfl, hsent, hcur, hcache⟩
  rw [if_pos ⟨rfl, Nat.zero_lt_one, rfl⟩] at hsent
  have hfetch : c₀.fetch = c₀.request := if_pos ⟨rfl, Nat.zero_lt_one, rfl⟩
  have hcur₁ : d₁.cursors = d.cursors ++ [c₀.request] := by
    rw [hcur, hfetch]
    simp [register]
  have hc₁ : d₁.cursors[d.cursors.length]? = some c₀.request := by simp [hcur₁]
  have hstore : c₀.request.store res = .ok c := by
    rw [Cursor.store_request, Cursor.store_batch hbatch]
    rfl
  rw [bindPost_ok, wp_bind]
  unfold extendInternal storeResponse
  rw [wp_bind, cursor_of hc₁, hstore]
  dsimp only
  rw [modifyCursor_of hc₁, bindPost_ok]
  have hc₂ : (d₁.cursors.set d.cursors.length c)[d.cursors.length]? = some c := by
    simp [hcur₁]
  have hnotdone : ¬(c.outstandingRequests = 0 ∧ c.error ≠ none) := by
    simp [c, c₀, Cursor.stored, Cursor.request]
  rw [cursor_of hc₂, if_neg hnotdone, wp_pure, bindPost_ok, wp_pure]
  refine ⟨rfl, ⟨hsent.peer, hsent.soft, ?_⟩, by simp [hcur₁], hcache⟩
  rw [hsent.eq]
  rfl

/-! ### Reading -/

section Reading
variable {default : Decoder V} {d d' : Driver (conformingServer default Message.Explained)}
  {waiting : Option (Query V)} {returned : ℕ → List V}

/-- The server has answered more under the token of a frame just taken than was handed out. -/
theorem Taken.owed {token : ℤ} {buf : Bytes}
    (h : d.Taken (conformingServer_framed default Message.Explained) token buf) :
    History.heard d.handed token < d.state.told token ∧
      ∃ f ∈ d.state.answers, f.token = token ∧ f.payload = buf := by
  obtain ⟨f, rest, ⟨done, hf, hh⟩, rfl, rfl, -⟩ := h.position
  have hanswers : d.state.answers = done ++ f :: rest := hf
  have hheard : History.heard d.handed f.token = done.countP (·.token = f.token) := by
    have hmap := congrArg (List.countP (·.1 = f.token)) hh
    rw [handedPairs, pairs, List.countP_map, List.countP_map] at hmap
    exact hmap
  refine ⟨?_, f, by simp [hanswers], rfl, rfl⟩
  rw [hheard, ServerState.told, hanswers, List.countP_append, List.countP_cons_of_pos (by simp)]
  omega

/-- A frame just taken is for a registered cursor that is owed it, or for the query whose
first response is being waited for. -/
theorem Accounted.addressee (h : d.Accounted waiting returned) {token : ℤ} {buf : Bytes}
    (ht : d.Taken (conformingServer_framed default Message.Explained) token buf) :
    (∃ (id : ℕ) (c : Cursor V), d.cursors[id]? = some c ∧ c.query.token = token ∧ 0 < c.outstandingRequests ∧
      d.cursorCache.lookup token = some id) ∨
    ∃ q, waiting = some q ∧ q.token = token ∧ d.cursorCache.lookup token = none := by
  have hasked : History.heard d.handed token < d.state.asked token :=
    ht.owed.1.trans_le (h.polite.owed token)
  by_cases hex : ∃ (id : ℕ) (c : Cursor V), d.cursors[id]? = some c ∧ c.query.token = token
  · left
    obtain ⟨id, c, hc, rfl⟩ := hex
    have hacc := h.cursors id c hc
    have hpos : 0 < c.outstandingRequests := by
      rw [hacc.asked, hacc.heard] at hasked
      rw [hacc.outstanding]
      omega
    exact ⟨id, c, hc, rfl, hpos, (h.cache _ _).mpr ⟨c, hc, rfl, .inr hpos⟩⟩
  · right
    have hno : ∀ (id : ℕ) (c : Cursor V), d.cursors[id]? = some c → c.query.token ≠ token :=
      fun id c hc heq => hex ⟨id, c, hc, heq⟩
    have hsettled := h.settled token hno
    have hnone : d.cursorCache.lookup token = none := by
      cases hl : d.cursorCache.lookup token with
      | none => rfl
      | some id =>
        obtain ⟨c, hc, heq, -⟩ := (h.cache token id).mp hl
        exact absurd heq (hno id c hc)
    split_ifs at hsettled with hw
    · obtain ⟨q, hq, htoken⟩ := Option.map_eq_some_iff.mp hw
      exact ⟨q, hq, htoken, hnone⟩
    · omega

/-- What the server answered decodes with the decoder of the query it answers. -/
theorem Accounted.decodes (h : d.Accounted waiting returned) {token : ℤ} {buf : Bytes}
    (ht : d.Taken (conformingServer_framed default Message.Explained) token buf) {q : Query V}
    (hq : d.state.requests.find? (·.token = token) = some q) :
    ∃ m, q.jsonDecoder.getD default buf = .ok m ∧ m.Explained := by
  obtain ⟨-, f, hf, rfl, rfl⟩ := ht.owed
  obtain ⟨m, hm, hexplained⟩ := h.polite.decodes f hf
  rw [ServerState.decoder, hq] at hm
  exact ⟨m, hm, hexplained⟩

/-- Every request but a `START` enters the server's books. -/
theorem Sent.books {qs : List (Query V)} (h : Sent qs d d') (hqs : ∀ q ∈ qs, q.type ≠ .start)
    (hpolite : d.state.Polite default Message.Explained) :
    d'.state.requests = d.state.requests ++ qs ∧ d'.state.Polite default Message.Explained := by
  have hfold : ∀ s : ServerState V, s.Polite default Message.Explained →
      (qs.foldl ServerState.receive s).requests = s.requests ++ qs ∧
        (qs.foldl ServerState.receive s).Polite default Message.Explained := by
    clear h
    induction qs with
    | nil => exact fun s hs => ⟨(List.append_nil _).symm, hs⟩
    | cons q qs ih =>
      intro s hs
      obtain ⟨hreq, hpolite⟩ := ih (fun q hq => hqs q (by simp [hq])) (s.receive q) (hs.receive q)
      have hreceive : s.receive q = { s with requests := s.requests ++ [q] } :=
        if_pos (.inl (hqs q (by simp)))
      refine ⟨hreq.trans ?_, hpolite⟩
      rw [hreceive, List.append_assoc]
      rfl
  have hpeer : d'.state = qs.foldl ServerState.receive d.state := h.peer
  rw [hpeer]
  exact hfold d.state hpolite

/-- A frame for a cursor. -/
theorem extend_accounted (h : d.Accounted waiting returned) (hup : d.Up) {token : ℤ} {buf : Bytes}
    (ht : d.Taken (conformingServer_framed default Message.Explained) token buf) {id : ℕ}
    {c : Cursor V} (hc : d.cursors[id]? = some c) (htoken : c.query.token = token)
    (hpos : 0 < c.outstandingRequests) (hlookup : d.cursorCache.lookup token = some id) :
    wp (extend id buf) (fun o d' => o = .ok () ∧ d'.Accounted waiting returned ∧ d'.Up)
      { d with handed := d.handed ++ [(token, buf, .cursor id)] } := by
  subst htoken
  have hacc := h.cursors id c hc
  obtain ⟨m, hdec, hexplained⟩ := h.decodes ht hacc.started
  rw [← hacc.decoder] at hdec
  obtain ⟨c', hstore⟩ : ∃ c', c.answered.store { m with token := c.query.token } = .ok c' :=
    ⟨_, (c.answered.store_explained _ hexplained).choose_spec.1⟩
  have hquery' : c'.query = c.query := (Cursor.store_keeps hstore).1
  have hcached : c.query.token ∈ d.cursorCache := by
    rw [← AList.lookup_isSome, hlookup]
    rfl
  have hup₀ : Up { d with handed := d.handed ++ [(c.query.token, buf, .cursor id)] } :=
    ⟨hup.isOpen, hup.closing, hup.sends⟩
  have hc₀ : ({ d with handed := d.handed ++ [(c.query.token, buf, .cursor id)] } :
    Driver (conformingServer default Message.Explained)).cursors[id]? = some c := hc
  refine (extend_sent hup₀ hc₀ hacc.token hdec hstore hcached).mono ?_
  rintro o d₁ ⟨rfl, hsent, hcur, hcache⟩
  obtain ⟨hreq, hpolite⟩ := hsent.books (by split_ifs <;> simp [requestOf]) h.polite
  have heq := hsent.eq
  have htake := hacc.take hpos hdec hexplained hstore
  have hresp := (Cursor.respond_of_store hstore).2
  have hquery : (c.respond { m with token := c.query.token }).query = c.query := by
    rw [hresp]
    split_ifs <;> exact hquery'
  have hacc' : Accounts default d₁.state (d.handed ++ [(c.query.token, buf, .cursor id)])
      (returned id) id (c.respond { m with token := c.query.token }) := by
    rw [hresp]
    split_ifs with hwants
    · rw [if_pos hwants] at hreq
      have hzero : c.outstandingRequests - 1 = 0 := hwants.2.2
      have houtstanding : c'.outstandingRequests = 0 := (Cursor.store_keeps hstore).2.trans hzero
      exact htake.request hreq (congrArg Query.token hquery').symm (.inl rfl) (by omega) fun _ => houtstanding
    · rw [if_neg hwants] at hreq
      simpa using htake.frame [] [] hreq (by simp) (by simp)
  refine ⟨rfl, ?_, hsent.up hup₀⟩
  have hnonneg := hacc'.bounds.1
  refine h.update _ [(c.query.token, buf, .cursor id)] hc hcur hquery hreq ?_ (by rw [heq]) (by simp)
    (by rw [heq]; exact hacc') (fun _ _ => rfl) ?_ hpolite (by rw [heq]) (by rw [heq])
  · split_ifs <;> simp [requestOf]
  · rw [hcache]
    have hlive : c.Live := .inr hpos
    split_ifs with hdone
    · right
      refine ⟨rfl, ?_⟩
      rintro (hnone | hpos')
      · exact hdone.2 hnone
      · omega
    · left
      refine ⟨rfl, fun _ => hlive, fun _ => ?_⟩
      unfold Cursor.Live
      by_contra hdead
      obtain ⟨hsome, hzero⟩ := not_or.mp hdead
      exact hdone ⟨by omega, hsome⟩

/-- Between operations, and while `waiting` is read for. -/
structure Ready (waiting : Option (Query V)) (returned : ℕ → List V)
    (d : Driver (conformingServer default Message.Explained)) : Prop where
  books : d.Accounted waiting returned
  position : d.Conserved (conformingServer_framed default Message.Explained)
  up : d.Up

/-- Inside an operation that waits for the server. -/
def Blocked (waiting : Option (Query V)) (returned : ℕ → List V)
    (d : Driver (conformingServer default Message.Explained)) : Prop :=
  d.Accounted waiting returned ∧ ∃ rest, d.HandedOut (conformingServer_framed default Message.Explained) rest

theorem readFrame_ready (deadline : Option ℤ) (h : d.Ready waiting returned) :
    wp (readFrame deadline) (fun o d' => match o with
      | .ok (token, buf) => d'.Accounted waiting returned ∧ d'.Up ∧
          d'.Taken (conformingServer_framed default Message.Explained) token buf ∧ Progressed d d'
      | .error e => d'.Ready waiting returned ∧ deadline ≠ none ∧ ¬e.Internal
      | .running => d'.Blocked waiting returned) d := by
  obtain ⟨fs, -, hflight⟩ := h.position.position
  have hreads := readFrame_spec (conformingServer_framed default Message.Explained) deadline
    h.up.isOpen h.position.soft (hflight h.up.isOpen)
  refine (hreads.and (readFrame_taken deadline h.position)).mono ?_
  rintro o d' ⟨⟨fs', hfrom, hspec⟩, htaken⟩
  have hbooks := h.books.reads hfrom.toReads
  have hup : d'.Up := by
    have heq := hfrom.eq
    exact ⟨hfrom.isOpen.trans h.up.isOpen, by rw [heq]; exact h.up.closing,
      by rw [hfrom.sends]; exact h.up.sends⟩
  cases o with
  | ok frame => exact ⟨hbooks, hup, htaken⟩
  | error e =>
    refine ⟨⟨hbooks, htaken, hup⟩, hspec.1, ?_⟩
    rw [hspec.2.1]
    simp [Exn.Internal]
  | running => exact ⟨hbooks, htaken.1⟩

/-- How a read ends. A query whose first response is waited for gets it; any other read comes
back with nothing once its own token was served, or times out. -/
def ReadOutcome (query : Query V) (deadline : Option ℤ) (waiting : Option (Query V))
    (returned : ℕ → List V) (d : Driver (conformingServer default Message.Explained))
    (o : Outcome (Exn V) (Option (Response V)))
    (d' : Driver (conformingServer default Message.Explained)) : Prop :=
  match o with
  | .ok none => d'.Ready waiting returned ∧ waiting = none ∧ Progressed d d'
  | .ok (some res) => d'.Ready none returned ∧ waiting = some query ∧ ∃ buf m,
      Answered query buf d' ∧ query.jsonDecoder.getD default buf = .ok m ∧ m.Explained ∧
        res = { m with token := query.token }
  | .error e => d'.Ready waiting returned ∧ deadline ≠ none ∧ ¬e.Internal
  | .running => d'.Blocked waiting returned

theorem readLoop_ready (query : Query V) (deadline : Option ℤ) (n : ℕ) (hn : d.turns ≤ n)
    (h : d.Ready waiting returned) (hwaiting : ∀ q, waiting = some q → q = query) :
    wp (readLoop query deadline n) (ReadOutcome query deadline waiting returned d) d := by
  induction n generalizing d with
  | zero =>
    unfold turns at hn
    split_ifs at hn <;> omega
  | succ n ih =>
    unfold readLoop
    rw [wp_bind]
    refine (readFrame_ready deadline h).mono ?_
    rintro (⟨token, buf⟩ | e | _) d₁ hpost
    · obtain ⟨hbooks, hup, htaken, hprog⟩ := hpost
      rw [bindPost_ok, wp_bind, wp_read, bindPost_ok]
      rcases hbooks.addressee htaken with ⟨id, c, hc, htoken, hpos, hlookup⟩ | ⟨q, hq, htoken, hlookup⟩
      · rw [hlookup]
        dsimp only
        rw [wp_bind, hand, wp_modify, bindPost_ok, wp_bind]
        have hconserved := htaken.hand (.cursor id)
        refine ((extend_accounted hbooks hup htaken hc htoken hpos hlookup).and
          (extend_quiet (conformingServer_framed default Message.Explained) id buf _)).mono ?_
        rintro o d₂ ⟨⟨rfl, hbooks₂, hup₂⟩, -, hquiet⟩
        have hready : d₂.Ready waiting returned := ⟨hbooks₂, hconserved.quiet hquiet, hup₂⟩
        have hturns : d₂.turns = d₁.turns := by rw [turns, turns, hquiet.header, hquiet.env]
        have hprog₂ : Progressed d d₂ := ⟨hquiet.header.trans hprog.header, hturns ▸ hprog.turns⟩
        rw [bindPost_ok, wp_ite]
        refine ⟨fun hown => ⟨hready, ?_, hprog₂⟩, fun _ => ?_⟩
        · cases hw : waiting with
          | none => rfl
          | some q =>
            have hno := (hbooks.waits q hw).2.2 id c hc
            rw [hwaiting q hw] at hno
            exact absurd (htoken.trans hown) hno
        · have hlt := hprog₂.turns
          refine (ih (by omega) hready).mono ?_
          rintro ((_ | res) | e | _) d' hpost'
          · exact ⟨hpost'.1, hpost'.2.1, hpost'.2.2.header, hpost'.2.2.turns.trans hlt⟩
          · exact hpost'
          · exact hpost'
          · exact hpost'
      · have hquery := hwaiting q hq
        subst hquery
        subst htoken
        subst hq
        rw [hlookup]
        dsimp only
        rw [if_pos rfl, wp_bind, hand, wp_modify, bindPost_ok, wp_bind, wp_read, bindPost_ok, wp_bind]
        obtain ⟨hbooks₂, hanswered⟩ := hbooks.hear buf
        obtain ⟨m, hdec, hexplained⟩ := hbooks.decodes htaken (hbooks.waits q rfl).1
        have hjson : (Response.ofJson q.token buf (q.jsonDecoder.getD d₁.jsonDecoder) :
            Except (Exn V) _) = .ok { m with token := q.token } := by
          rw [Response.ofJson, hbooks.decoder, hdec]
        rw [getJsonDecoder, hjson, wp_ofExcept_ok, bindPost_ok, wp_pure]
        exact ⟨⟨hbooks₂, htaken.hand .query, hup.isOpen, hup.closing, hup.sends⟩, rfl, buf, m,
          hanswered, hdec, hexplained, rfl⟩
    · exact hpost
    · exact hpost

theorem readResponse_ready (query : Query V) (deadline : Option ℤ) (h : d.Ready waiting returned)
    (hwaiting : ∀ q, waiting = some q → q = query) :
    wp (readResponse query deadline) (ReadOutcome query deadline waiting returned d) d := by
  unfold readResponse
  rw [wp_bind, wp_read, bindPost_ok]
  refine readLoop_ready query deadline _ ?_ h hwaiting
  unfold turns
  split <;> omega

/-! ### Operations -/

theorem Conserved.withCursors (cursors : List (Cursor V))
    (h : d.Conserved (conformingServer_framed default Message.Explained)) :
    Conserved (conformingServer_framed default Message.Explained) { d with cursors } := by
  have hquiet : Quiet (conformingServer_framed default Message.Explained) d { d with cursors } :=
    ⟨rfl, rfl, rfl, rfl, rfl, rfl, fun h => h⟩
  exact h.quiet hquiet

def NextOutcome (returned : ℕ → List V) (id : ℕ) (o : Outcome (Exn V) V)
    (d' : Driver (conformingServer default Message.Explained)) : Prop :=
  match o with
  | .ok v => d'.Ready none (Function.update returned id (returned id ++ [v]))
  | .error e => d'.Ready none returned ∧ ¬e.Internal
  | .running => d'.Blocked none returned

/-- Asking for a batch keeps the books. -/
theorem maybeFetchBatch_ready (h : d.Ready none returned) {id : ℕ} {c : Cursor V}
    (hc : d.cursors[id]? = some c) :
    wp (maybeFetchBatch id) (fun o d' => o = .ok () ∧ d'.Ready none returned ∧
      d'.cursors[id]? = some c.fetch ∧ d'.turns = d.turns) d := by
  have hacc := h.books.cursors id c hc
  have hlt : id < d.cursors.length := (List.getElem?_eq_some_iff.mp hc).1
  refine ((maybeFetchBatch_sent h.up hc hacc.token).and
    (maybeFetchBatch_quiet (conformingServer_framed default Message.Explained) id _)).mono ?_
  rintro o d' ⟨⟨rfl, hsent, hcur, hcache⟩, -, hquiet⟩
  obtain ⟨hreq, hpolite⟩ := hsent.books (by split_ifs <;> simp [requestOf]) h.books.polite
  have heq := hsent.eq
  have hacc' : Accounts default d'.state d.handed (returned id) id c.fetch := by
    unfold Cursor.fetch
    split_ifs with hwants
    · rw [if_pos hwants] at hreq
      have hzero := hwants.2.2
      exact hacc.request hreq rfl (.inl rfl) (by omega) fun _ => hzero
    · rw [if_neg hwants] at hreq
      simpa using hacc.frame [] [] hreq (by simp) (by simp)
  have hquery : c.fetch.query = c.query := by
    unfold Cursor.fetch
    split_ifs <;> rfl
  refine ⟨rfl, ⟨?_, h.position.quiet hquiet, hsent.up h.up⟩, by simp [hcur, hlt],
    by rw [turns, turns, hquiet.header, hquiet.env]⟩
  refine h.books.update _ [] hc hcur hquery hreq ?_ (by rw [heq]; simp) (by simp)
    (by rw [heq]; exact hacc') (fun _ _ => rfl) (.inl ⟨hcache, ?_⟩) hpolite (by rw [heq]) (by rw [heq])
  · split_ifs <;> simp [requestOf]
  · unfold Cursor.fetch
    split_ifs with hwants
    · simp [Cursor.Live, hwants.1, Cursor.request]
    · rfl

theorem nextLoop_ready (id : ℕ) (deadline : Option ℤ) (n : ℕ) (hn : d.turns < n)
    (h : d.Ready none returned) : wp (nextLoop id deadline n) (NextOutcome returned id) d := by
  induction n generalizing d with
  | zero => omega
  | succ n ih =>
    unfold nextLoop
    rw [wp_bind, wp_cursor]
    refine ⟨fun c hc => ?_, fun _ => ⟨h, by simp [Exn.Internal]⟩⟩
    rw [bindPost_ok]
    have hacc := h.books.cursors id c hc
    have hlt : id < d.cursors.length := (List.getElem?_eq_some_iff.mp hc).1
    cases hitems : c.items with
    | cons v vs =>
      dsimp only
      rw [wp_bind, modifyCursor_of hc, bindPost_ok, wp_pure]
      refine ⟨?_, h.position.withCursors _, h.up.isOpen, h.up.closing, h.up.sends⟩
      refine h.books.update [] [] hc rfl rfl (by simp; rfl) (by simp) (by simp)
        (by simp) ?_ (fun j hj => Function.update_of_ne hj ..) (.inl ⟨rfl, Iff.rfl⟩) h.books.polite
        rfl rfl
      rw [Function.update_self]
      exact hacc.pop hitems
    | nil =>
      dsimp only
      rw [wp_bind]
      refine (maybeFetchBatch_ready h hc).mono ?_
      rintro o d₁ ⟨rfl, hready, hc₁, hturns⟩
      rw [bindPost_ok, cursor_of hc₁, Cursor.fetch_error]
      cases herr : c.error with
      | some e =>
        rw [wp_throw]
        exact ⟨hready, hacc.harmless e herr⟩
      | none =>
        dsimp only
        rw [wp_bind]
        refine (readResponse_ready c.query deadline hready (by simp)).mono ?_
        rintro ((_ | res) | e | _) d₂ hpost
        · obtain ⟨hready₂, -, hprog⟩ := hpost
          have hlt := hprog.turns
          exact ih (by omega) hready₂
        · exact absurd hpost.2.1 (by simp)
        · exact ⟨hpost.1, hpost.2.2⟩
        · exact hpost

theorem next_ready (id : ℕ) (wait : Wait) (h : d.Ready none returned) :
    wp (next id wait) (NextOutcome returned id) d := by
  have hloop : ∀ deadline, ∀ d' : Driver (conformingServer default Message.Explained),
      d'.Ready none returned →
      wp (do nextLoop id deadline (← Prog.read fun d => d.io.env.length + 3))
        (NextOutcome returned id) d' := by
    intro deadline d' h'
    rw [wp_bind, wp_read, bindPost_ok]
    refine nextLoop_ready id deadline _ ?_ h'
    unfold turns
    split <;> omega
  unfold next
  rw [wp_bind]
  cases hwait : (waitToTimeout wait : Except (Exn V) _) with
  | error e =>
    rw [wp_ofExcept_error]
    refine ⟨h, ?_⟩
    have htext : ∀ text : String, ¬(Exn.driver s!"Invalid wait timeout '{text}'" : Exn V).Internal := by
      intro text
      simp [Exn.Internal, ← String.toList_inj, toString]
    cases wait with
    | bool b => cases hwait
    | real t =>
      dsimp only [waitToTimeout] at hwait
      split_ifs at hwait
      cases hwait
      exact htext (toString t)
    | other text =>
      cases hwait
      exact htext text
  | ok timeout =>
    rw [wp_ofExcept_ok, bindPost_ok]
    cases timeout with
    | none => exact hloop none d h
    | some timeout =>
      unfold getNext
      rw [wp_bind]
      have hquiet := time_quiet (F := conformingServer_framed default Message.Explained) d
      have hready : Ready none returned { d with io := d.io.now.2 } :=
        ⟨h.books.same h.books.polite rfl rfl le_rfl rfl rfl rfl, h.position.quiet hquiet.2,
          h.up.isOpen, h.up.closing, h.up.sends⟩
      exact hloop (some (d.io.now.1 + timeout)) { d with io := d.io.now.2 } hready

theorem cursorClose_ready (id : ℕ) (h : d.Ready none returned) :
    wp (cursorClose id) (fun o d' => d'.Ready none returned ∧ (o = .ok () ∨ o = .error .attribute)) d := by
  unfold cursorClose
  rw [wp_bind, wp_cursor]
  refine ⟨fun c hc => ?_, fun _ => ⟨h, .inr rfl⟩⟩
  have hacc := h.books.cursors id c hc
  have hlt : id < d.cursors.length := (List.getElem?_eq_some_iff.mp hc).1
  rw [bindPost_ok, wp_ite]
  refine ⟨fun herr => ?_, fun _ => ⟨h, .inl rfl⟩⟩
  rw [wp_bind, modifyCursor_of hc, bindPost_ok, wp_bind, wp_read, bindPost_ok, if_pos h.up.isOpen]
  have hc₁ : (d.cursors.set id (c.fail .cursorEmpty))[id]? = some (c.fail .cursorEmpty) := by
    simp [hlt]
  rw [wp_bind, modifyCursor_of hc₁, bindPost_ok]
  have hcur : (d.cursors.set id (c.fail .cursorEmpty)).set id (c.fail .cursorEmpty).request =
      d.cursors.set id (c.fail .cursorEmpty).request := List.set_set ..
  simp only [hcur]
  have hup : Up { d with cursors := d.cursors.set id (c.fail .cursorEmpty).request } :=
    ⟨h.up.isOpen, h.up.closing, h.up.sends⟩
  have hc₂ : (d.cursors.set id (c.fail .cursorEmpty).request)[id]? =
      some (c.fail .cursorEmpty).request := by
    simp [hlt]
  have hquiet := cursorRequest_quiet (conformingServer_framed default Message.Explained) .stop id
    { d with cursors := d.cursors.set id (c.fail .cursorEmpty).request }
  refine ((cursorRequest_sent hup hc₂ hacc.token .stop).and hquiet).mono ?_
  rintro o d' ⟨⟨rfl, hsent, hcur', hcache⟩, -, hq⟩
  refine ⟨⟨?_, (h.position.withCursors _).quiet hq, hsent.up hup⟩, .inl rfl⟩
  obtain ⟨hreq, hpolite⟩ := hsent.books (by simp [requestOf]) h.books.polite
  have heq := hsent.eq
  have hone := hacc.open_le herr
  have hacc' : Accounts default d'.state d.handed (returned id) id (c.fail .cursorEmpty).request :=
    (hacc.fail (by simp [Exn.Internal])).request hreq rfl (.inr rfl) hone (by simp [Cursor.fail])
  have hbounds := hacc.bounds
  refine h.books.update _ [] hc hcur' rfl hreq (by simp [requestOf, Cursor.request, Cursor.fail])
    (by rw [heq]; simp) (by simp) (by rw [heq]; exact hacc') (fun _ _ => rfl)
    (.inl ⟨hcache, fun _ => .inl herr, fun _ => .inr ?_⟩) hpolite (by rw [heq]) (by rw [heq])
  simp only [Cursor.request, Cursor.fail]
  omega

/-- The first answer of the server to `q`, and that it is what the caller of `q` gets. -/
def OwnReply {proper : Message V → Prop} [DecidablePred proper] (q : Query V)
    (o : Outcome (Exn V) (Reply V)) (d : Driver (conformingServer default proper)) : Prop :=
  ∃ buf m id, (d.state.answers.find? (·.token = q.token)).map Frame.payload = some buf ∧
    q.jsonDecoder.getD default buf = .ok m ∧
    o = Response.outcome q id { m with token := q.token } ∧
    (Response.IsBatch { m with token := q.token } → ∃ c, d.cursors[id]? = some c ∧ c.query = q)

/-- How a query that wants an answer ends: refused before it was sent, or answered. -/
def QueryOutcome (q : Query V) (returned : ℕ → List V) (o : Outcome (Exn V) (Reply V))
    (d' : Driver (conformingServer default Message.Explained)) : Prop :=
  match o with
  | .running => d'.Blocked (some q) returned
  | o => d'.Ready none returned ∧ (∀ e, o = .error e → ¬e.Internal) ∧
      ((∃ e, q.serialize = .error e ∧ o = .error e) ∨ OwnReply q o d')

/-- A response handed to the query is the server's first under its token. -/
theorem Answered.first {q : Query V} {buf : Bytes} (h : Answered q buf d) {rest : List Frame}
    (hout : d.HandedOut (conformingServer_framed default Message.Explained) rest) :
    (d.state.answers.find? (·.token = q.token)).map Frame.payload = some buf := by
  obtain ⟨done, hf, hh⟩ := hout
  have hanswers : d.state.answers = done ++ rest := hf
  have hfilter : (pairs done).filter (·.1 = q.token) = [(q.token, buf)] := by
    rw [← hh, handedPairs, List.filter_map]
    show List.map _ (d.handed.filter (·.1 = q.token)) = _
    rw [h.handed]
    rfl
  have hfind : (pairs done).find? (·.1 = q.token) = some (q.token, buf) := by
    rw [← List.head?_filter, hfilter]
    rfl
  rw [pairs, List.find?_map] at hfind
  obtain ⟨f, hf, heq⟩ := Option.map_eq_some_iff.mp hfind
  have hdone : done.find? (·.token = q.token) = some f := hf
  rw [hanswers, List.find?_append, hdone]
  exact congrArg (some ∘ Prod.snd) heq

/-- `DefaultCursor.__init__` for the answered query. -/
theorem newCursor_ready (h : d.Ready none returned) {q : Query V} {buf : Bytes} {m : Message V}
    (ha : Answered q buf d) (hrequested : requested d.state q.token = 0)
    (htoken : 0 ≤ q.token ∧ q.token < 2 ^ 63)
    (hdec : q.jsonDecoder.getD default buf = .ok m)
    (hbatch : Response.IsBatch { m with token := q.token }) :
    wp (newCursor q { m with token := q.token }) (fun o d' => o = .ok d.cursors.length ∧
      d'.Ready none returned ∧ (∃ c, d'.cursors[d.cursors.length]? = some c ∧ c.query = q) ∧
      d'.state.answers = d.state.answers) d := by
  let c₀ : Cursor V := ⟨q, [], 0, 1, none, q.jsonDecoder.getD default⟩
  let c := (c₀.stored { m with token := q.token }).request
  have hquiet := newCursor_quiet (conformingServer_framed default Message.Explained) q
    { m with token := q.token } d
  have hsent := newCursor_sent h.up htoken hbatch
  rw [getJsonDecoder, h.books.decoder, Cursor.opened_batch hbatch] at hsent
  refine (hsent.and hquiet).mono ?_
  rintro o d' ⟨⟨rfl, hsent, hcur, hcache⟩, -, hq⟩
  obtain ⟨hreq, hpolite⟩ := hsent.books (by simp [requestOf]) h.books.polite
  have heq := hsent.eq
  have hextended := (h.books.unopened d.cursors.length le_rfl).2
  have hacc : Accounts default d.state d.handed [] d.cursors.length
      (Cursor.stored { m with token := q.token }
        ⟨q, [], 0, 1, none, q.jsonDecoder.getD default⟩) :=
    Accounts.opened ha.asked.1 ha.asked.2 hrequested htoken ha.handed hextended hdec hbatch
  have hacc' : Accounts default d'.state d.handed [] d.cursors.length c :=
    hacc.request hreq rfl (.inl rfl) (by simp [Cursor.stored]) (by simp [Cursor.stored])
  refine ⟨rfl, ⟨?_, h.position.quiet hq, hsent.up h.up⟩, ⟨c, by rw [hcur]; simp; rfl, rfl⟩, hq.frames⟩
  exact h.books.register ha rfl (.inr (by simp [Cursor.stored])) hcur hcache
    hreq (by simp [requestOf]) (by rw [heq]) (by rw [heq]; exact hacc') hpolite (by rw [heq])
    (by rw [heq])

/-- A query that has been answered has asked for nothing else yet. -/
theorem Answered.requested {q : Query V} {buf : Bytes} (h : Answered q buf d)
    (htype : q.type ≠ .cont ∧ q.type ≠ .stop) : requested d.state q.token = 0 := by
  obtain ⟨hfind, hone⟩ := h.asked
  have hsingle : d.state.requests.filter (·.token = q.token) = [q] := by
    rw [ServerState.asked, List.countP_eq_length_filter] at hone
    obtain ⟨r, hr⟩ := List.length_eq_one_iff.mp hone
    rw [← List.head?_filter, hr] at hfind
    rw [hr, Option.some.inj hfind]
  rw [Net.requested, List.countP_eq_zero]
  intro r hr hpred
  obtain ⟨htoken, hkind⟩ := of_decide_eq_true hpred
  have hmem : r ∈ d.state.requests.filter (·.token = q.token) := by simp [hr, htoken]
  rw [hsingle, List.mem_singleton] at hmem
  subst hmem
  rcases hkind with hkind | hkind
  · exact htype.1 hkind
  · exact htype.2 hkind

/-- The end of `run_query`. -/
theorem replyTo_ready (h : d.Ready none returned) {q : Query V} {buf : Bytes} {m : Message V}
    (ha : Answered q buf d) (htype : q.type ≠ .cont ∧ q.type ≠ .stop)
    (hdec : q.jsonDecoder.getD default buf = .ok m) (hexplained : m.Explained) :
    wp (replyTo q { m with token := q.token }) (QueryOutcome q returned) d := by
  obtain ⟨rest, hout, -⟩ := h.position.position
  have hfirst := ha.first hout
  -- the reply is what the response says, and nothing else happened
  have hplain : ∀ o : Outcome (Exn V) (Reply V), o ≠ .running →
      o = Response.outcome q 0 { m with token := q.token } →
      ¬Response.IsBatch { m with token := q.token } → (∀ e, o = .error e → ¬e.Internal) →
      QueryOutcome q returned o d := by
    intro o hrun ho hbatch hinternal
    have hown : OwnReply q o d := ⟨buf, m, 0, hfirst, hdec, ho, fun h => absurd h hbatch⟩
    cases o with
    | running => exact absurd rfl hrun
    | ok r => exact ⟨h, hinternal, .inr hown⟩
    | error e => exact ⟨h, hinternal, .inr hown⟩
  have hbatch : Response.IsBatch { m with token := q.token } →
      wp (do
        let id ← newCursor q { m with token := q.token }
        return maybeProfile (.cursor id) { m with token := q.token })
        (QueryOutcome q returned) d := by
    intro hb
    obtain ⟨f, hf, -⟩ := Option.map_eq_some_iff.mp hfirst
    have htoken : q.token < 2 ^ 63 := by
      have hfq : f.token = q.token := by simpa using List.find?_some hf
      exact hfq ▸ f.token_lt
    have hnonneg := (h.books.tokens.2 q (List.mem_of_find?_eq_some ha.asked.1)).1
    rw [wp_bind]
    refine (newCursor_ready h ha (ha.requested htype) ⟨hnonneg, htoken⟩ hdec hb).mono ?_
    rintro o d' ⟨rfl, hready, hopened, hanswers⟩
    rw [bindPost_ok, wp_pure]
    exact ⟨hready, by simp, .inr ⟨buf, m, d.cursors.length, by rw [hanswers]; exact hfirst, hdec,
      (Response.outcome_batch hb q _).symm, fun _ => hopened⟩⟩
  have hdatum : ∀ f : V → Reply V, Response.outcome q 0 { m with token := q.token } =
      (match firstDatum { m with token := q.token } with
        | .ok v => .ok (f v)
        | .error e => .error e) →
      ¬Response.IsBatch { m with token := q.token } →
      wp (do
        let v ← ofExcept (firstDatum { m with token := q.token })
        return f v) (QueryOutcome q returned) d := by
    intro f hout hno
    cases hd : (firstDatum { m with token := q.token } : Except (Exn V) V) with
    | ok v =>
      rw [hd] at hout
      exact hplain (.ok (f v)) (by simp) hout.symm hno (by simp)
    | error e =>
      have hindex : e = .index := by
        unfold firstDatum at hd
        split at hd <;> cases hd
        rfl
      rw [hd] at hout
      exact hplain (.error e) (by simp) hout.symm hno (by simp [hindex, Exn.Internal])
  unfold replyTo
  cases hm : m.type with
  | successPartial => exact hbatch (.inl hm)
  | successSequence => exact hbatch (.inr hm)
  | waitComplete =>
    exact hplain (.ok .none) (by simp) (by simp [Response.outcome, hm])
      (by simp [Response.IsBatch, hm]) (by simp)
  | successAtom =>
    exact hdatum _ (by simp only [Response.outcome, hm]) (by simp [Response.IsBatch, hm])
  | serverInfo =>
    exact hdatum _ (by simp only [Response.outcome, hm]) (by simp [Response.IsBatch, hm])
  | _ =>
    obtain ⟨e, he, hinternal⟩ :=
      Response.makeError_explained { m with token := q.token } hexplained q
    dsimp only
    rw [he]
    exact hplain (.error e) (by simp) (by simp [Response.outcome, hm, he])
      (by simp [Response.IsBatch, hm]) (by simpa using hinternal)

/-- Waiting for the first response to a query that has just been sent. -/
theorem await_ready {q : Query V} (h : d.Ready (some q) returned)
    (htype : q.type ≠ .cont ∧ q.type ≠ .stop) :
    wp (do
      match ← readResponse q none with
      | some res => replyTo q res
      | none => throw .attribute) (QueryOutcome q returned) d := by
  rw [wp_bind]
  refine (readResponse_ready q none h (by simp)).mono ?_
  rintro ((_ | res) | e | _) d' hpost
  · exact absurd hpost.2.1 (by simp)
  · obtain ⟨hready, -, buf, m, hanswered, hdec, hexplained, rfl⟩ := hpost
    exact replyTo_ready hready hanswered htype hdec hexplained
  · exact absurd rfl hpost.2.1
  · exact hpost

theorem serialize_harmless {q : Query V} {e : Exn V} (hq : q.serialize = .error e) :
    ¬e.Internal := by
  unfold Query.serialize at hq
  split at hq
  · cases hq
    simp [Exn.Internal]
  · split_ifs at hq
    cases hq
    simp [Exn.Internal]

/-- A token is passed over. -/
theorem Ready.pass (h : d.Ready none returned) :
    Ready none returned { d with nextToken := d.nextToken + 1 } := by
  have hquiet : Quiet (conformingServer_framed default Message.Explained) d
      { d with nextToken := d.nextToken + 1 } := ⟨rfl, rfl, rfl, rfl, rfl, rfl, fun h => h⟩
  exact ⟨h.books.same h.books.polite rfl rfl (by simp) rfl rfl rfl, h.position.quiet hquiet,
    h.up.isOpen, h.up.closing, h.up.sends⟩

/-- A query that takes the next token. -/
theorem runQuery_ready (h : d.Ready none returned) {q : Query V} (htoken : q.token = d.nextToken)
    (htype : q.type ≠ .cont ∧ q.type ≠ .stop) (hanswerable : q.Answerable) :
    wp (runQuery q false) (QueryOutcome q returned) { d with nextToken := d.nextToken + 1 } := by
  unfold runQuery
  rw [wp_bind]
  cases hq : q.serialize with
  | error e =>
    unfold sendQuery
    rw [hq, wp_bind, wp_ofExcept_error, bindPost_error]
    exact ⟨h.pass, by rintro _ ⟨⟩; exact serialize_harmless hq, .inl ⟨e, hq, rfl⟩⟩
  | ok message =>
    refine ((sendQuery_sent h.pass.up hq).and
      (sendQuery_quiet (conformingServer_framed default Message.Explained) q _)).mono ?_
    rintro o d₁ ⟨⟨rfl, hsent, hcur, hcache⟩, -, hquiet⟩
    have heq := hsent.eq
    have hpeer : d₁.state = d.state.receive q := hsent.peer
    have hreq : d₁.state.requests = d.state.requests ++ [q] := by
      rw [hpeer, ServerState.receive, if_pos hanswerable]
    have hpolite : d₁.state.Polite default Message.Explained := by
      rw [hpeer]
      exact h.books.polite.receive q
    have hasked : Accounted (some q) returned d₁ :=
      h.books.ask htoken hpolite hreq (by rw [heq]) (by rw [heq]) hcur hcache (by rw [heq])
    rw [bindPost_ok, if_neg (by simp)]
    exact await_ready ⟨hasked, h.pass.position.quiet hquiet, hsent.up h.pass.up⟩ htype

/-- A query under `noreply` takes a token and leaves nothing to be answered. -/
theorem runNoreply_ready (h : d.Ready none returned) {q : Query V} (hstart : q.type = .start)
    (hnoreply : q.noreply = true) :
    wp (runQuery q true) (fun o d' => d'.Ready none returned ∧
      (o = .ok .none ∨ ∃ e, o = .error e ∧ ¬e.Internal))
      { d with nextToken := d.nextToken + 1 } := by
  unfold runQuery
  rw [wp_bind]
  cases hq : q.serialize with
  | error e =>
    unfold sendQuery
    rw [hq, wp_bind, wp_ofExcept_error, bindPost_error]
    exact ⟨h.pass, .inr ⟨e, rfl, serialize_harmless hq⟩⟩
  | ok message =>
    refine ((sendQuery_sent h.pass.up hq).and
      (sendQuery_quiet (conformingServer_framed default Message.Explained) q _)).mono ?_
    rintro o d₁ ⟨⟨rfl, hsent, hcur, hcache⟩, -, hquiet⟩
    have heq := hsent.eq
    have hpeer : d₁.state = d.state := by
      have hreceive : d₁.state = d.state.receive q := hsent.peer
      rw [hreceive, ServerState.receive, if_neg (by simp [Query.Answerable, hstart, hnoreply])]
    rw [bindPost_ok, if_pos rfl, wp_pure]
    refine ⟨⟨?_, h.pass.position.quiet hquiet, hsent.up h.pass.up⟩, .inl rfl⟩
    exact h.pass.books.same (by rw [hpeer]; exact h.books.polite) (congrArg _ hpeer) (by rw [heq])
      (by rw [heq]) hcur hcache (by rw [heq])

/-- `run` with an answer. -/
theorem start_ready (h : d.Ready none returned) (term : Option V) (body : Except String Bytes)
    (jsonDecoder : Option (Decoder V)) :
    wp (start term body jsonDecoder false) (QueryOutcome
      { type := .start, token := d.nextToken, term, body, jsonDecoder, noreply := false } returned)
      d := by
  unfold start newToken
  rw [checkOpen_up h.up, wp_bind, wp_bind, wp_read, bindPost_ok, wp_bind, wp_modify, bindPost_ok,
    wp_pure, bindPost_ok]
  exact runQuery_ready h rfl (by simp) (.inr rfl)

theorem control_ready (h : d.Ready none returned) {type : QueryType}
    (htype : type = .noreplyWait ∨ type = .serverInfo) :
    ∃ q, wp (control type) (QueryOutcome q returned) d := by
  unfold control newToken termless
  refine ⟨{ type, token := d.nextToken, term := none, body := .ok (d.numbering.queryJson type)
            jsonDecoder := none, noreply := false }, ?_⟩
  rw [checkOpen_up h.up, wp_bind, wp_bind, wp_read, bindPost_ok, wp_bind, wp_modify, bindPost_ok,
    wp_pure, bindPost_ok, wp_bind, wp_bind, wp_read, bindPost_ok, wp_pure, bindPost_ok]
  refine runQuery_ready h rfl ?_ (.inr rfl)
  rcases htype with rfl | rfl <;> simp

/-- The item an operation returned from the cursor `id`. -/
def given (id : ℕ) : Op V → Outcome (Exn V) (Reply V) → List V
  | .next id' _, .ok (.value v) => if id' = id then [v] else []
  | _, _ => []

def CallOutcome (op : Op V) (returned : ℕ → List V) (o : Outcome (Exn V) (Reply V))
    (d' : Driver (conformingServer default Message.Explained)) : Prop :=
  match o with
  | .running => ∃ waiting, d'.Blocked waiting returned
  | o => d'.Ready none (fun id => returned id ++ given id op o) ∧ ∀ e, o = .error e → ¬e.Internal

theorem QueryOutcome.call {q : Query V} {op : Op V} (hop : ∀ id wait, op ≠ .next id wait)
    {o : Outcome (Exn V) (Reply V)} (h : QueryOutcome q returned o d) :
    CallOutcome op returned o d := by
  have hnone : ∀ o : Outcome (Exn V) (Reply V), (fun id => returned id ++ given id op o) = returned := by
    intro o
    funext id
    cases op with
    | next id' wait => exact absurd rfl (hop id' wait)
    | _ => simp [given]
  cases o with
  | running => exact ⟨_, h⟩
  | ok r => exact ⟨(hnone _).symm ▸ h.1, h.2.1⟩
  | error e => exact ⟨(hnone _).symm ▸ h.1, h.2.1⟩

theorem call_ready (op : Op V) (h : d.Ready none returned) :
    wp op.call (CallOutcome op returned) d := by
  cases op with
  | run term body jsonDecoder noreply =>
    cases noreply with
    | false => exact (start_ready h term body jsonDecoder).mono fun o d' hpost => hpost.call (by simp)
    | true =>
      unfold Op.call start newToken
      rw [checkOpen_up h.up, wp_bind, wp_bind, wp_read, bindPost_ok, wp_bind, wp_modify,
        bindPost_ok, wp_pure, bindPost_ok]
      refine (runNoreply_ready h rfl rfl).mono ?_
      rintro o d' ⟨hready, rfl | ⟨e, rfl, he⟩⟩
      · exact ⟨by simpa [given] using hready, by simp⟩
      · exact ⟨by simpa [given] using hready, by rintro _ ⟨⟩; exact he⟩
  | next id wait =>
    unfold Op.call
    rw [wp_bind]
    refine (next_ready id wait h).mono ?_
    rintro (v | e | _) d' hpost
    · rw [bindPost_ok, wp_pure]
      refine ⟨?_, by simp⟩
      have hreturned : (fun id' => returned id' ++ given id' (.next id wait) (.ok (.value v))) =
          Function.update returned id (returned id ++ [v]) := by
        funext id'
        by_cases hid : id = id'
        · subst hid
          simp [given]
        · rw [Function.update_of_ne (Ne.symm hid)]
          simp [given, hid]
      rw [hreturned]
      exact hpost
    · exact ⟨by simpa [given] using hpost.1, by rintro _ ⟨⟩; exact hpost.2⟩
    · exact ⟨none, hpost⟩
  | close id =>
    unfold Op.call
    rw [wp_bind]
    refine (cursorClose_ready id h).mono ?_
    rintro o d' ⟨hready, rfl | rfl⟩
    · rw [bindPost_ok, wp_pure]
      exact ⟨by simpa [given] using hready, by simp⟩
    · exact ⟨by simpa [given] using hready, by rintro _ ⟨⟩; simp [Exn.Internal]⟩
  | noreplyWait =>
    obtain ⟨q, hq⟩ := control_ready h (.inl rfl)
    exact hq.mono fun o d' hpost => hpost.call (by simp)
  | server =>
    obtain ⟨q, hq⟩ := control_ready h (.inr rfl)
    exact hq.mono fun o d' hpost => hpost.call (by simp)

end Reading

/-! ### Sessions -/

section Session
variable {default : Decoder V} {proper : Message V → Prop} [DecidablePred proper]

/-- What the `next`s of a session returned from the cursor `id`. -/
def returnedBy (id : ℕ) (ops : List (Op V)) (os : List (Outcome (Exn V) (Reply V))) : List V :=
  (ops.zip os).flatMap fun x => given id x.1 x.2

structure Fresh (d : Driver (conformingServer default proper)) : Prop where
  isOpen : d.io.isOpen = true
  closing : d.closing = false
  received : d.io.readBuffer = none ∧ d.io.incoming = [] ∧ d.headerInProgress = none
  server : d.state = ⟨[], []⟩
  decoder : d.jsonDecoder = default
  token : d.nextToken = 0
  cursors : d.cursors = [] ∧ d.cursorCache = ∅ ∧ d.handed = []

/-- What is to hold after, or in the middle of, a session that did `ops` and got `os`. -/
structure Demultiplexed (ops : List (Op V)) (os : List (Outcome (Exn V) (Reply V)))
    (d : Driver (conformingServer default proper)) : Prop where
  /-- A cursor counts its `CONTINUE`s and `STOP`s whose answers it has not been handed. -/
  outstanding : ∀ (id : ℕ) (c : Cursor V), d.cursors[id]? = some c →
    c.outstandingRequests = requested d.state c.query.token - History.extended d.handed id ∧
      c.outstandingRequests ∈ ({0, 1, 2} : Finset ℤ)
  cached : ∀ (id : ℕ) (c : Cursor V), d.cursors[id]? = some c →
    (d.cursorCache.lookup c.query.token = some id ↔ c.error = none ∨ 0 < c.outstandingRequests)
  expected : .error (.driver "Unexpected response received.") ∉ os
  present : .error .key ∉ os
  items : ∀ (id : ℕ) (c : Cursor V), d.cursors[id]? = some c →
    returnedBy id ops os <+: batches c.jsonDecoder (pairs d.state.answers) c.query.token
  /-- The next `run` gets the response to its own token. -/
  replies : .running ∉ os → ∀ (term : Option V) (body : Except String Bytes)
    (jsonDecoder : Option (Decoder V)),
    let q : Query V := { type := .start, token := d.nextToken, term, body, jsonDecoder, noreply := false }
    wp (start term body jsonDecoder false) (fun o d' => o = .running ∨
      (∃ e, q.serialize = .error e ∧ o = .error e) ∨ OwnReply q o d') d

end Session

section Theorem
variable {default : Decoder V} {d : Driver (conformingServer default Message.Explained)}

theorem Fresh.ready (h : d.Fresh) (henv : ∀ e ∈ d.io.env, e.Soft) (hsends : ∀ o ∈ d.io.sends, o.Soft) :
    d.Ready none fun _ => [] := by
  obtain ⟨hbuf, hincoming, hheader⟩ := h.received
  obtain ⟨hcursors, hcache, hhanded⟩ := h.cursors
  have hserver := h.server
  refine ⟨⟨?_, h.decoder, ?_, ?_, ?_, ?_, ?_, by simp, ?_, ?_⟩, ⟨⟨[], ⟨[], ?_, ?_⟩, fun _ => ⟨?_, ?_, ?_⟩⟩,
    henv⟩, h.isOpen, h.closing, hsends⟩
  · rw [hserver]
    exact ⟨by simp [ServerState.told, ServerState.asked], by simp⟩
  · simp [hserver, h.token]
  · simp [hcursors]
  · simp [hcursors]
  · simp [hcursors, hcache]
  · simp [hserver, hhanded, ServerState.asked, History.heard]
  · simp [hhanded, History.extended]
  · simp [hhanded]
  · exact congrArg ServerState.answers hserver
  · simp [handedPairs, hhanded, pairs]
  · simp [hbuf]
  · simp [hheader]
  · simp [hheader, hincoming]

/-- After a session the books balance; an operation that is not over yet is its last. -/
theorem session_ready (ops : List (Op V)) {returned : ℕ → List V} (h : d.Ready none returned) :
    let r := session (ops.map Op.call) d
    (∀ o ∈ r.1, ∀ e, o = .error e → ¬e.Internal) ∧
      (.running ∉ r.1 → r.2.Ready none fun id => returned id ++ returnedBy id ops r.1) ∧
      (.running ∈ r.1 → ∃ waiting, r.2.Blocked waiting fun id => returned id ++ returnedBy id ops r.1) := by
  induction ops generalizing d returned with
  | nil => simpa [session, returnedBy] using h
  | cons op ops ih =>
    have hcall := call_ready op h
    unfold wp at hcall
    simp only [List.map_cons, session]
    revert hcall
    rcases op.call d with ⟨o, d'⟩
    have hnext : ∀ o, CallOutcome op returned o d' → o ≠ .running →
        let r := session (ops.map Op.call) d'
        (∀ o' ∈ o :: r.1, ∀ e, o' = .error e → ¬e.Internal) ∧
        (.running ∉ o :: r.1 → r.2.Ready none fun id => returned id ++ returnedBy id (op :: ops) (o :: r.1)) ∧
        (.running ∈ o :: r.1 → ∃ waiting, r.2.Blocked waiting
          fun id => returned id ++ returnedBy id (op :: ops) (o :: r.1)) := by
      intro o hpost hrun r
      have hready : d'.Ready none (fun id => returned id ++ given id op o) ∧
          ∀ e, o = .error e → ¬e.Internal := by
        cases o with
        | running => exact absurd rfl hrun
        | ok r => exact hpost
        | error e => exact hpost
      obtain ⟨hharmless, hover, hblocked⟩ := ih hready.1
      have hcons : ∀ id, returned id ++ returnedBy id (op :: ops) (o :: r.1) =
          returned id ++ given id op o ++ returnedBy id ops r.1 := by
        simp [returnedBy]
      simp only [hcons]
      refine ⟨?_, fun hno => hover fun hin => hno (List.mem_cons_of_mem _ hin),
        fun hin => hblocked ?_⟩
      · rintro o' ho'
        rcases List.mem_cons.mp ho' with rfl | ho'
        · exact hready.2
        · exact hharmless o' ho'
      · exact (List.mem_cons.mp hin).resolve_left (Ne.symm hrun)
    intro hcall
    cases o with
    | ok r => exact hnext (.ok r) hcall (by simp)
    | error e => exact hnext (.error e) hcall (by simp)
    | running =>
      obtain ⟨waiting, hblocked⟩ := hcall
      refine ⟨by simp, by simp, fun _ => ⟨waiting, ?_⟩⟩
      simpa [returnedBy, given] using hblocked

/-- Whatever is in the books is what a session must show. -/
theorem Accounted.demultiplexed {waiting : Option (Query V)} {ops : List (Op V)}
    {os : List (Outcome (Exn V) (Reply V))} (hbooks : d.Accounted waiting fun id => returnedBy id ops os)
    {rest : List Frame} (hout : d.HandedOut (conformingServer_framed default Message.Explained) rest)
    (hharmless : ∀ o ∈ os, ∀ e, o = .error e → ¬e.Internal)
    (hready : .running ∉ os → ∃ returned, d.Ready none returned) : Demultiplexed ops os d := by
  refine ⟨fun id c hc => ?_, fun id c hc => ?_, fun hin => ?_, fun hin => ?_, fun id c hc => ?_,
    fun hno term body jsonDecoder => ?_⟩
  · have hacc := hbooks.cursors id c hc
    have hbounds := hacc.bounds
    refine ⟨hacc.outstanding, ?_⟩
    simp only [Finset.mem_insert, Finset.mem_singleton]
    omega
  · rw [hbooks.cache]
    refine ⟨?_, fun hlive => ⟨c, hc, rfl, hlive⟩⟩
    rintro ⟨e, he, -, hlive⟩
    rw [hc] at he
    cases he
    exact hlive
  · exact hharmless _ hin _ rfl (.inr rfl)
  · exact hharmless _ hin _ rfl (.inl rfl)
  · obtain ⟨done, hf, hh⟩ := hout
    have hanswers : d.state.answers = done ++ rest := hf
    have hframes : History.frames d.handed = pairs done := hh
    refine (List.prefix_append ..).trans ((hbooks.cursors id c hc).items.trans ?_)
    rw [hframes, hanswers, batches, batches, pairs, pairs, List.map_append, List.filter_append,
      List.flatMap_append]
    exact List.prefix_append ..
  · obtain ⟨returned, hr⟩ := hready hno
    refine (start_ready hr term body jsonDecoder).mono ?_
    rintro (r | e | _) d' hpost
    · exact .inr hpost.2.2
    · exact .inr hpost.2.2
    · exact .inl rfl

/-- Demultiplexing and request accounting, for every program of operations, every schedule of
the socket and every server whose error responses carry their message. -/
theorem session_demultiplexed (ops : List (Op V)) (hfresh : d.Fresh)
    (henv : ∀ e ∈ d.io.env, e.Soft) (hsends : ∀ o ∈ d.io.sends, o.Soft) :
    Demultiplexed ops (session (ops.map Op.call) d).1 (session (ops.map Op.call) d).2 := by
  obtain ⟨hharmless, hover, hblocked⟩ := session_ready ops (hfresh.ready henv hsends)
  by_cases hrun : .running ∈ (session (ops.map Op.call) d).1
  · obtain ⟨waiting, hbooks, rest, hout⟩ := hblocked hrun
    exact Accounted.demultiplexed hbooks hout hharmless fun hno => absurd hrun hno
  · have hready := hover hrun
    obtain ⟨rest, hout, -⟩ := hready.position.position
    exact Accounted.demultiplexed hready.books hout hharmless fun _ => ⟨_, hready⟩

end Theorem

/-- A toy encoding: the first byte is the type, each other byte an item. -/
def byteDecoder : Decoder ℕ
  | 0 :: items => .ok ⟨.successPartial, items.map UInt8.toNat, none, none, none⟩
  | 1 :: items => .ok ⟨.successSequence, items.map UInt8.toNat, none, none, none⟩
  | 2 :: items => .ok ⟨.runtimeError, items.map UInt8.toNat, none, none, none⟩
  | _ => .error "no response"

/-- A new connection; the server gives these answers, each read in two chunks. -/
def connected (proper : Message ℕ → Prop) [DecidablePred proper] (answers : List (ℤ × Bytes)) :
    Driver (conformingServer byteDecoder proper) where
  io :=
    { host := "localhost", port := 28015, isOpen := true, readBuffer := none, timeout := none
      incoming := []
      peer := ⟨[], []⟩
      env := answers.flatMap fun a => [.peer a, .recv (.chunk 11), .recv (.chunk 11)]
      sends := [], sent := [], clock := fun n => n, ticks := 0 }
  numbering := ⟨fun _ => [], nil_length_lt, [1]⟩
  nextToken := 0
  jsonDecoder := byteDecoder
  cursorCache := ∅
  headerInProgress := none
  closing := false
  cursors := []
  handed := []

theorem connected_fresh (proper : Message ℕ → Prop) [DecidablePred proper]
    (answers : List (ℤ × Bytes)) : (connected proper answers).Fresh :=
  ⟨rfl, rfl, ⟨rfl, rfl, rfl⟩, rfl, rfl, rfl, ⟨rfl, rfl, rfl⟩⟩

theorem connected_soft (proper : Message ℕ → Prop) [DecidablePred proper]
    (answers : List (ℤ × Bytes)) : ∀ e ∈ (connected proper answers).io.env, e.Soft := by
  intro e he
  obtain ⟨a, -, ha⟩ := List.mem_flatMap.mp he
  simp only [List.mem_cons, List.not_mem_nil, or_false] at ha
  rcases ha with rfl | rfl | rfl <;> trivial

/-- A query is pipelined between two others, and a batch for it arrives out of turn. -/
theorem session_demultiplexed_pipelined :
    Demultiplexed [.run none (.ok []) none false, .run none (.ok []) none false, .next 0 (.bool true)]
      (session ([.run none (.ok []) none false, .run none (.ok []) none false,
        .next 0 (.bool true)].map Op.call)
        (connected Message.Explained [(0, [0, 5]), (0, [1, 6]), (1, [1, 7])])).1
      (session ([.run none (.ok []) none false, .run none (.ok []) none false,
        .next 0 (.bool true)].map Op.call)
        (connected Message.Explained [(0, [0, 5]), (0, [1, 6]), (1, [1, 7])])).2 :=
  session_demultiplexed _ (connected_fresh ..) (connected_soft _ _) (by simp [connected])

/-- An error response without a message answers a `CONTINUE` while a second query waits:
`data[0]` raises out of that query, whose own response then has no one to go to. -/
theorem unexplained_error_not_demultiplexed :
    ¬∀ (d : Driver (conformingServer byteDecoder fun _ => True)) (ops : List (Op ℕ)), d.Fresh →
      (∀ e ∈ d.io.env, e.Soft) → (∀ o ∈ d.io.sends, o.Soft) →
      Demultiplexed ops (session (ops.map Op.call) d).1 (session (ops.map Op.call) d).2 := by
  intro h
  have hrun := (h (connected (fun _ => True) [(0, [0, 5]), (0, [2]), (1, [0, 7])])
    [.run none (.ok []) none false, .run none (.ok []) none false, .run none (.ok []) none false]
    (connected_fresh ..) (connected_soft _ _) (by simp [connected])).expected
  refine hrun ?_
  have hos : (session ([.run none (.ok []) none false, .run none (.ok []) none false,
      .run none (.ok []) none false].map Op.call)
      (connected (fun _ => True) [(0, [0, 5]), (0, [2]), (1, [0, 7])])).1 =
      [.ok (.cursor 0), .error .index, .error (.driver "Unexpected response received.")] := by
    decide +kernel
  exact hos ▸ (by simp)

end Driver
end RethinkDB.Net
