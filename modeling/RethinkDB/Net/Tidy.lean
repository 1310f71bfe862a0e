import RethinkDB.Net.Closing

/-! What the calls of the blocking driver raise, whatever the socket does under them: the driver's own
errors and nothing else, with the books left as the next call wants them. -/
namespace RethinkDB.Net
open RethinkDB.Lib Prog

variable {V : Type} {P : Peer V}

/-- The subclasses of `ReqlError`. -/
def Exn.Reql : Exn V → Prop
  | .driver _ | .timeout .. | .runtime .. | .reql .. | .unknownResponseType _ => True
  | _ => False

/-- Has the data its type calls for. -/
structure Message.Complete (m : Message V) : Prop where
  explained : m.Explained
  datum : m.type = .successAtom ∨ m.type = .serverInfo → m.data ≠ []

/-- A decoder that finds a message in every proper payload. -/
def Sound (proper : Bytes → Prop) (decoder : Decoder V) : Prop :=
  ∀ payload, proper payload → ∃ m, decoder payload = .ok m ∧ m.Complete

/-- A server that sends whole frames with proper payloads, whenever and to whomever it likes. -/
def Peer.Sends (P : Peer V) (proper : Bytes → Prop) : Prop :=
  ∀ s a, ∃ new, (P.act s a).2 = encodeFrames new ∧ ∀ f ∈ new, proper f.payload

/-- The induction is on the actions. -/
theorem Peer.Sends.acts {proper : Bytes → Prop} (h : P.Sends proper) (s : P.State) (as : List P.Act) :
    ∃ new, (P.acts s as).2 = encodeFrames new ∧ ∀ f ∈ new, proper f.payload := by
  induction as generalizing s with
  | nil =>
    refine ⟨[], ?_, by simp⟩
    simp [Peer.acts]
  | cons a as ih =>
    obtain ⟨new, hnew, hproper⟩ := h s a
    obtain ⟨later, hlater, hproper'⟩ := ih (P.act s a).1
    refine ⟨new ++ later, ?_, ?_⟩
    · simp [Peer.acts, hnew, hlater]
    · intro f hf
      rcases List.mem_append.mp hf with hf | hf
      · exact hproper f hf
      · exact hproper' f hf

/-! ### The socket -/

namespace Transport

/-- How a `recv` loop comes back, `res` being what it had. -/
def Returned (length : ℕ) (res : Bytes) (t : Transport P) (o : Outcome (Exn V) Bytes)
    (t' : Transport P) : Prop :=
  match o with
  | .ok r => ∃ got, Advanced t t' got ∧ r = res ++ got ∧ r.length = length ∧
      t'.readBuffer = t.readBuffer
  | .error e => e.Reql ∧ t'.sends = t.sends
  | .running => True

theorem Returned.after {length : ℕ} {res chunk : Bytes} {t u t' : Transport P}
    {o : Outcome (Exn V) Bytes} (hu : Advanced t u chunk) (hbuf : u.readBuffer = t.readBuffer)
    (h : Returned length (res ++ chunk) u o t') : Returned length res t o t' := by
  cases o with
  | ok r =>
    obtain ⟨got, hgot, hr, hlen, hbuf'⟩ := h
    exact ⟨chunk ++ got, hu.trans hgot, by rw [hr, List.append_assoc], hlen, hbuf'.trans hbuf⟩
  | error e => exact ⟨h.1, h.2.trans hu.sends⟩
  | running => trivial

theorem Returned.skip {length : ℕ} {res : Bytes} {t u t' : Transport P} {o : Outcome (Exn V) Bytes}
    (hu : Advanced t u []) (hbuf : u.readBuffer = t.readBuffer) (h : Returned length res u o t') :
    Returned length res t o t' :=
  Returned.after hu hbuf (by rwa [List.append_nil])

/-- The induction is on the schedule, whatever is in it. -/
theorem recvLoop_returned (length : ℕ) (env : List (Event P.Act)) (res : Bytes) (t : Transport P)
    (hres : res.length ≤ length) :
    Returned length res { t with env } (recvLoop length env res t).1 (recvLoop length env res t).2 := by
  induction env generalizing res t with
  | nil =>
    unfold recvLoop
    split_ifs with h
    · exact ⟨[], .refl _, by simp, by omega, rfl⟩
    · trivial
  | cons e env ih =>
    by_cases h : length ≤ res.length
    · simp only [recvLoop, if_pos h]
      exact ⟨[], .refl _, by simp, by omega, rfl⟩
    have hskip : Advanced { t with env := e :: env } { t with env } [] :=
      ⟨⟨[], by simp [Peer.acts]⟩, ⟨rfl, rfl⟩, rfl, rfl, List.suffix_cons _ _⟩
    have hwait : Returned length res { t with env := e :: env } (recvLoop length env res t).1
        (recvLoop length env res t).2 :=
      Returned.skip hskip rfl (ih res t hres)
    cases e with
    | peer a =>
      simp only [recvLoop, if_neg h]
      have hact := hskip.trans (Advanced.act { t with env } a)
      exact Returned.skip hact rfl (ih res (t.peerAct a) hres)
    | recv o =>
      cases o with
      | chunk k =>
        simp only [recvLoop, if_neg h]
        by_cases hin : t.incoming = []
        · simpa only [recv, hin, if_true] using hwait
        · simp only [recv, hin, if_false]
          obtain ⟨chunk, hchunk⟩ : ∃ c, c = t.incoming.take (min (k + 1) (length - res.length)) :=
            ⟨_, rfl⟩
          rw [← hchunk]
          have hlen : (res ++ chunk).length ≤ length := by
            simp only [hchunk, List.length_append, List.length_take]
            omega
          have hgot : Advanced { t with env := .recv (.chunk k) :: env }
              { ({ t with incoming := t.incoming.drop chunk.length }.settimeout none) with env } chunk := by
            refine ⟨⟨[], rfl, ?_⟩, ⟨rfl, rfl⟩, rfl, rfl, List.suffix_cons _ _⟩
            have hcut : chunk ++ t.incoming.drop chunk.length = t.incoming := by
              obtain ⟨rest, hrest⟩ := List.take_prefix (min (k + 1) (length - res.length)) t.incoming
              rw [← hchunk] at hrest
              rw [← hrest, List.drop_left]
            simpa [Peer.acts, settimeout] using hcut
          split_ifs with hnil
          · exact ⟨trivial, rfl⟩
          · exact Returned.after hgot rfl (ih (res ++ chunk) _ hlen)
      | timeout =>
        simp only [recvLoop, if_neg h]
        cases htime : t.timeout with
        | none => simpa only [recv, htime] using hwait
        | some s =>
          by_cases hs : 0 < s
          · simp only [recv, htime, hs, if_true]
            exact ⟨trivial, rfl⟩
          · simpa only [recv, htime, hs, if_false] using hwait
      | wouldBlock =>
        simp only [recvLoop, if_neg h]
        by_cases hs : t.timeout = some 0
        · simp only [recv, hs, if_true]
          exact ⟨trivial, rfl⟩
        · simpa only [recv, hs, if_false] using hwait
      | eintr => simpa only [recvLoop, if_neg h, recv] using hwait
      | timedOut | connReset | osError text | exception text =>
        simp only [recvLoop, if_neg h, recv]
        exact ⟨trivial, rfl⟩
      | eof =>
        simp only [recvLoop, if_neg h, recv]
        exact ⟨trivial, rfl⟩

/-- Nothing from outside the program breaks into a `send`. -/
def Uninterrupted (t : Transport P) : Prop := ∀ accepted text, .interrupt accepted text ∉ t.sends

def Posted (t : Transport P) (o : Outcome (Exn V) Unit) (t' : Transport P) : Prop :=
  t'.sends ⊆ t.sends ∧ match o with
  | .ok _ => ∃ sends sent, t' = { t with sends, sent }
  | .error e => e.Reql
  | .running => False

theorem Posted.after {t u t' : Transport P} {o : Outcome (Exn V) Unit}
    (hu : ∃ sends sent, u = { t with sends, sent } ∧ sends ⊆ t.sends) (h : Posted u o t') :
    Posted t o t' := by
  obtain ⟨sends, sent, rfl, hsub⟩ := hu
  obtain ⟨hsub', hpost⟩ := h
  refine ⟨List.Subset.trans hsub' hsub, ?_⟩
  cases o with
  | ok a =>
    obtain ⟨sends', sent', rfl⟩ := hpost
    exact ⟨sends', sent', rfl⟩
  | error e => exact hpost
  | running => exact hpost

/-- The induction is on the schedule. -/
theorem sendLoop_posted (sends : List SendOutcome) (data : Bytes) (t : Transport P)
    (h : ∀ accepted text, .interrupt accepted text ∉ sends) :
    Posted { t with sends } (sendLoop sends data t).1 (sendLoop sends data t).2 := by
  induction sends generalizing data t with
  | nil => exact ⟨List.Subset.refl _, _, _, rfl⟩
  | cons o sends ih =>
    have hrest : ∀ accepted text, .interrupt accepted text ∉ sends :=
      fun accepted text hmem => h accepted text (List.mem_cons_of_mem _ hmem)
    have hsub : sends ⊆ o :: sends := List.subset_cons_self _ _
    by_cases hnil : data = []
    · simp only [sendLoop, if_pos hnil]
      exact ⟨List.Subset.refl _, _, _, rfl⟩
    · simp only [sendLoop, if_neg hnil]
      cases o with
      | accept k => exact Posted.after ⟨_, _, rfl, hsub⟩ (ih _ _ hrest)
      | eintr => exact Posted.after ⟨_, _, rfl, hsub⟩ (ih _ _ hrest)
      | connReset => exact ⟨hsub, trivial⟩
      | osError text => exact ⟨hsub, trivial⟩
      | exception text => exact ⟨hsub, trivial⟩
      | interrupt accepted text => exact absurd List.mem_cons_self (h accepted text)

theorem sendall_posted (data : Bytes) {t : Transport P} (h : t.Uninterrupted) :
    Posted t (sendall data t).1 (sendall data t).2 ∧
      ((sendall data t).1 = .ok () → data ≠ [] → t.isOpen = true) := by
  unfold sendall
  split_ifs with hnil hopen
  · exact ⟨⟨List.Subset.refl _, t.sends, t.sent, rfl⟩, fun _ hne => absurd hnil hne⟩
  · exact ⟨sendLoop_posted _ _ _ h, fun _ _ => hopen⟩
  · exact ⟨⟨List.Subset.refl _, trivial⟩, nofun⟩

end Transport

theorem Query.serialize_of {q : Query V} {body : Bytes} (hbody : q.body = .ok body)
    (hlength : body.length < 2 ^ 32) (hnonneg : 0 ≤ q.token) (hlt : q.token < 2 ^ 64) :
    ∃ message, q.serialize = .ok message ∧ message ≠ [] := by
  refine ⟨encodeLE 8 q.token.toNat ++ encodeLE 4 body.length ++ body, ?_, ?_⟩
  · unfold serialize
    rw [hbody]
    exact if_pos ⟨hnonneg, hlt, hlength⟩
  · intro hnil
    have := congrArg List.length hnil
    simp at this

namespace Driver

/-! ### What is true between calls -/

/-- What is still to be read is a stream of proper frames. -/
def InStep (proper : Bytes → Prop) (d : Driver P) : Prop :=
  ∃ fs, d.InFlight fs ∧ ∀ f ∈ fs, proper f.payload

structure Poised (proper : Bytes → Prop) (d : Driver P) : Prop where
  isOpen : d.io.isOpen = true
  inStep : d.InStep proper

theorem InStep.of_same {proper : Bytes → Prop} {d d' : Driver P} (h : d.InStep proper)
    (hio : d'.io = d.io) (hheader : d'.headerInProgress = d.headerInProgress) : d'.InStep proper := by
  obtain ⟨fs, hflight, hproper⟩ := h
  refine ⟨fs, ⟨?_, ?_, ?_⟩, hproper⟩
  · rw [hio]
    exact hflight.buffer
  · rw [hheader]
    exact hflight.header
  · rw [hio, hheader]
    exact hflight.bytes

theorem Poised.of_same {proper : Bytes → Prop} {d d' : Driver P} (h : d.Poised proper)
    (hio : d'.io = d.io) (hheader : d'.headerInProgress = d.headerInProgress) : d'.Poised proper :=
  ⟨by rw [hio]; exact h.isOpen, h.inStep.of_same hio hheader⟩

/-- The books of an instance whose cursors are those from `n` on, under tokens below `b`; the next token is `k`. -/
structure Tidy (proper : Bytes → Prop) (n : ℕ) (b k : ℤ) (d : Driver P) : Prop where
  default : Sound proper d.jsonDecoder
  dummy : proper d.numbering.dummyResponse
  sends : d.io.Uninterrupted
  former : n ≤ d.cursors.length
  bound : 0 ≤ b
  next : d.nextToken = k
  cached : ∀ (id : ℕ) (c : Cursor V), n ≤ id → d.cursors[id]? = some c → c.error = none →
    c.query.token ∈ d.cursorCache
  distinct : ∀ (id id' : ℕ) (c c' : Cursor V), n ≤ id → n ≤ id' → d.cursors[id]? = some c →
    d.cursors[id']? = some c' → c.query.token = c'.query.token → id = id'
  registered : ∀ (token : ℤ) (id : ℕ), d.cursorCache.lookup token = some id →
    n ≤ id ∧ ∃ c, d.cursors[id]? = some c ∧ c.query.token = token
  sound : ∀ (id : ℕ) (c : Cursor V), n ≤ id → d.cursors[id]? = some c → Sound proper c.jsonDecoder
  tokens : ∀ (id : ℕ) (c : Cursor V), n ≤ id → d.cursors[id]? = some c →
    0 ≤ c.query.token ∧ c.query.token < b

section Tidy
variable {proper : Bytes → Prop} {n : ℕ} {b k : ℤ} {d d' : Driver P}

/-- A step on everything but cursors and cache. -/
theorem Tidy.of_same (h : d.Tidy proper n b k) (hdecoder : d'.jsonDecoder = d.jsonDecoder)
    (hnumbering : d'.numbering = d.numbering) (hcursors : d'.cursors = d.cursors)
    (hcache : d'.cursorCache = d.cursorCache) (hsends : d'.io.sends ⊆ d.io.sends)
    (hnext : d'.nextToken = d.nextToken) : d'.Tidy proper n b k where
  default := by rw [hdecoder]; exact h.default
  dummy := by rw [hnumbering]; exact h.dummy
  sends := fun accepted text hmem => h.sends accepted text (hsends hmem)
  former := by rw [hcursors]; exact h.former
  bound := h.bound
  next := hnext.trans h.next
  cached := by rw [hcursors, hcache]; exact h.cached
  distinct := by rw [hcursors]; exact h.distinct
  registered := by rw [hcursors, hcache]; exact h.registered
  sound := by rw [hcursors]; exact h.sound
  tokens := by rw [hcursors]; exact h.tokens

theorem Tidy.mono (h : d.Tidy proper n b k) {b' : ℤ} (hb : b ≤ b') : d.Tidy proper n b' k :=
  { h with
    bound := h.bound.trans hb
    tokens := fun id c hid hc => ⟨(h.tokens id c hid hc).1, (h.tokens id c hid hc).2.trans_le hb⟩ }

/-- The decoder of a query, its own or the connection's. -/
theorem Tidy.decoder (h : d.Tidy proper n b k) {query : Query V}
    (hquery : ∀ decoder, query.jsonDecoder = some decoder → Sound proper decoder) :
    Sound proper (d.getJsonDecoder query) := by
  unfold getJsonDecoder
  cases hdecoder : query.jsonDecoder with
  | none => exact h.default
  | some decoder => exact hquery decoder hdecoder

/-- A step on cursors and cache. -/
theorem Tidy.keeps (h : d.Tidy proper n b k) {cursors : List (Cursor V)} {cache : AList fun _ : ℤ => ℕ}
    (hlength : cursors.length = d.cursors.length)
    (hsame : ∀ (id : ℕ) (c : Cursor V), cursors[id]? = some c →
      ∃ c₀, d.cursors[id]? = some c₀ ∧ c.query = c₀.query ∧ c.jsonDecoder = c₀.jsonDecoder)
    (hopen : ∀ (id : ℕ) (c : Cursor V), n ≤ id → cursors[id]? = some c → c.error = none →
      c.query.token ∈ cache)
    (hcache : ∀ token id, cache.lookup token = some id → d.cursorCache.lookup token = some id) :
    Tidy proper n b k { d with cursors, cursorCache := cache } where
  default := h.default
  dummy := h.dummy
  sends := h.sends
  former := h.former.trans hlength.ge
  bound := h.bound
  next := h.next
  cached := hopen
  distinct := by
    intro id id' c c' hid hid' hc hc' htoken
    obtain ⟨c₀, hc₀, hquery, -⟩ := hsame id c hc
    obtain ⟨c₁, hc₁, hquery', -⟩ := hsame id' c' hc'
    rw [hquery, hquery'] at htoken
    exact h.distinct id id' c₀ c₁ hid hid' hc₀ hc₁ htoken
  registered := by
    intro token id hlookup
    obtain ⟨hid, c₀, hc₀, htoken⟩ := h.registered token id (hcache token id hlookup)
    have hlt : id < cursors.length := by
      rw [hlength]
      exact (List.getElem?_eq_some_iff.mp hc₀).1
    obtain ⟨c₁, hc₁, hquery, -⟩ := hsame id _ (List.getElem?_eq_getElem hlt)
    obtain rfl : c₀ = c₁ := Option.some.inj (hc₀.symm.trans hc₁)
    exact ⟨hid, _, List.getElem?_eq_getElem hlt, by rw [hquery, htoken]⟩
  sound := by
    intro id c hid hc
    obtain ⟨c₀, hc₀, -, hdecoder⟩ := hsame id c hc
    rw [hdecoder]
    exact h.sound id c₀ hid hc₀
  tokens := by
    intro id c hid hc
    obtain ⟨c₀, hc₀, hquery, -⟩ := hsame id c hc
    rw [hquery]
    exact h.tokens id c₀ hid hc₀

/-- A step of one cursor, which does not reopen it. -/
theorem Tidy.set (h : d.Tidy proper n b k) {id : ℕ} {c c' : Cursor V} (hc : d.cursors[id]? = some c)
    (hquery : c'.query = c.query) (hdecoder : c'.jsonDecoder = c.jsonDecoder)
    (herror : c'.error = none → c.error = none) :
    Tidy proper n b k { d with cursors := d.cursors.set id c' } := by
  have hlt : id < d.cursors.length := (List.getElem?_eq_some_iff.mp hc).1
  have hback : ∀ (j : ℕ) (e : Cursor V), (d.cursors.set id c')[j]? = some e → ∃ e₀ : Cursor V,
      d.cursors[j]? = some e₀ ∧ e.query = e₀.query ∧ e.jsonDecoder = e₀.jsonDecoder ∧
        (e.error = none → e₀.error = none) := by
    intro j e he
    by_cases hj : id = j
    · subst hj
      obtain rfl : c' = e := by simpa [hlt] using he
      exact ⟨c, hc, hquery, hdecoder, herror⟩
    · rw [List.getElem?_set_ne hj] at he
      exact ⟨e, he, rfl, rfl, fun herr => herr⟩
  refine h.keeps List.length_set ?_ ?_ fun _ _ hlookup => hlookup
  · intro j e he
    obtain ⟨e₀, he₀, hq, hd, -⟩ := hback j e he
    exact ⟨e₀, he₀, hq, hd⟩
  · intro j e hj he herr
    obtain ⟨e₀, he₀, hq, -, hopen⟩ := hback j e he
    rw [hq]
    exact h.cached j e₀ hj he₀ (hopen herr)

/-- A cursor that is through leaves the cache. -/
theorem Tidy.erase (h : d.Tidy proper n b k) {id : ℕ} {c : Cursor V} (hid : n ≤ id)
    (hc : d.cursors[id]? = some c) (herror : c.error ≠ none) :
    Tidy proper n b k { d with cursorCache := d.cursorCache.erase c.query.token } := by
  refine h.keeps rfl (fun j e he => ⟨e, he, rfl, rfl⟩) ?_ ?_
  · intro j e hj he herr
    have hne : e.query.token ≠ c.query.token := by
      intro htoken
      obtain rfl := h.distinct j id e c hj hid he hc htoken
      obtain rfl : e = c := Option.some.inj (he.symm.trans hc)
      exact herror herr
    have hmem := h.cached j e hj he herr
    rw [← AList.lookup_isSome] at hmem ⊢
    rwa [AList.lookup_erase_ne hne]
  · intro token j hlookup
    by_cases ht : token = c.query.token
    · rw [ht, AList.lookup_erase] at hlookup
      cases hlookup
    · rwa [AList.lookup_erase_ne ht] at hlookup

/-- A cursor under the token that comes next. -/
theorem Tidy.register (h : d.Tidy proper n b k) {query : Query V} (htoken : query.token = b)
    (hdecoder : Sound proper (d.getJsonDecoder query)) :
    Tidy proper n (b + 1) k (register query d) := by
  let new : Cursor V := ⟨query, [], 0, 1, none, d.getJsonDecoder query⟩
  have hcases : ∀ (id : ℕ) (c : Cursor V), (d.cursors ++ [new])[id]? = some c →
      d.cursors[id]? = some c ∨ id = d.cursors.length ∧ c = new := by
    intro id c hc
    rcases Nat.lt_or_ge id d.cursors.length with hlt | hge
    · rw [List.getElem?_append_left hlt] at hc
      exact .inl hc
    · rw [List.getElem?_append_right hge, List.getElem?_singleton] at hc
      split_ifs at hc with hzero
      · exact .inr ⟨by omega, (Option.some.inj hc).symm⟩
  have hkept : ∀ (id : ℕ) (c : Cursor V), d.cursors[id]? = some c →
      (d.cursors ++ [new])[id]? = some c := by
    intro id c hc
    exact (List.getElem?_append_left (List.getElem?_eq_some_iff.mp hc).1).trans hc
  have hold : ∀ (id : ℕ) (c : Cursor V), n ≤ id → d.cursors[id]? = some c → c.query.token ≠ query.token := by
    intro id c hid hc
    have := (h.tokens id c hid hc).2
    omega
  refine ⟨h.default, h.dummy, h.sends, ?_, by have := h.bound; omega, h.next, ?_, ?_, ?_, ?_, ?_⟩
  · show n ≤ (d.cursors ++ [new]).length
    have := h.former
    rw [List.length_append]
    omega
  · intro id c hid hc herr
    show c.query.token ∈ d.cursorCache.insert query.token d.cursors.length
    rw [AList.mem_insert]
    rcases hcases id c hc with hc | ⟨rfl, rfl⟩
    · exact .inr (h.cached id c hid hc herr)
    · exact .inl rfl
  · intro id id' c c' hid hid' hc hc' htok
    rcases hcases id c hc with hc | ⟨rfl, rfl⟩ <;> rcases hcases id' c' hc' with hc' | ⟨rfl, rfl⟩
    · exact h.distinct id id' c c' hid hid' hc hc' htok
    · exact absurd htok (hold id c hid hc)
    · exact absurd htok.symm (hold id' c' hid' hc')
    · rfl
  · intro token id hlookup
    by_cases ht : token = query.token
    · have hnew : (d.cursorCache.insert query.token d.cursors.length).lookup query.token =
          some d.cursors.length := AList.lookup_insert _
      rw [ht] at hlookup
      obtain rfl := Option.some.inj (hnew.symm.trans hlookup)
      exact ⟨h.former, new, List.getElem?_concat_length, ht.symm⟩
    · have hsame : (d.cursorCache.insert query.token d.cursors.length).lookup token =
          d.cursorCache.lookup token := AList.lookup_insert_ne ht
      obtain ⟨hid, c, hc, htok⟩ := h.registered token id (hsame.symm.trans hlookup)
      exact ⟨hid, c, hkept id c hc, htok⟩
  · intro id c hid hc
    rcases hcases id c hc with hc | ⟨rfl, rfl⟩
    · exact h.sound id c hid hc
    · exact hdecoder
  · intro id c hid hc
    rcases hcases id c hc with hc | ⟨rfl, rfl⟩
    · have := h.tokens id c hid hc
      omega
    · show 0 ≤ query.token ∧ query.token < b + 1
      have := h.bound
      omega

theorem Tidy.discardable (h : d.Tidy proper n b k) : d.Discardable (n ≤ ·) where
  cached := h.cached
  distinct := h.distinct
  dummy := by
    intro id c hid hc
    obtain ⟨m, hm, -⟩ := h.sound id c hid hc _ h.dummy
    exact ⟨m, hm⟩

/-- How a call ends under such books: with the books as they should be, and nothing raised but a
`ReqlError`. -/
def Civil (proper : Bytes → Prop) (n : ℕ) (b k : ℤ) {α : Type} (post : α → Driver P → Prop) :
    Outcome (Exn V) α → Driver P → Prop
  | .ok a, d' => d'.Tidy proper n b k ∧ post a d'
  | .error e, d' => d'.Tidy proper n b k ∧ e.Reql
  | .running, _ => True

theorem Civil.bind {α β : Type} {post : α → Driver P → Prop} {post' : β → Driver P → Prop} {b' : ℤ}
    (hb : b ≤ b') {m : Call P α} {f : α → Call P β} (hm : wp m (Civil proper n b k post) d)
    (hf : ∀ a d', d'.Tidy proper n b k → post a d' → wp (f a) (Civil proper n b' k post') d') :
    wp (m >>= f) (Civil proper n b' k post') d := by
  rw [wp_bind]
  refine hm.mono ?_
  rintro (a | e | _) d' hpost
  · exact hf a d' hpost.1 hpost.2
  · exact ⟨hpost.1.mono hb, hpost.2⟩
  · trivial

end Tidy
end Driver
end RethinkDB.Net
