import RethinkDB.Net.Fetch
import RethinkDB.Net.Server

/-! The books of a connection: what each cursor believes it is owed, against what has been
sent to a conforming server and what has come back. -/
namespace RethinkDB.Net
open RethinkDB.Lib

variable {V : Type} {default : Decoder V} {proper : Message V → Prop} [DecidablePred proper]

/-- What a frame was, and to whom it was handed. -/
abbrev History := List (ℤ × Bytes × Recipient)

/-- `CONTINUE` and `STOP` requests under a token. -/
def requested (s : ServerState V) (token : ℤ) : ℕ :=
  s.requests.countP fun q => q.token = token ∧ (q.type = .cont ∨ q.type = .stop)

namespace History

def heard (h : History) (token : ℤ) : ℕ := h.countP (·.1 = token)

/-- Frames handed to the `_extend` of a cursor. -/
def extended (h : History) (id : ℕ) : ℕ := h.countP (·.2.2 = .cursor id)

end History

def batchOf (decoder : Decoder V) (payload : Bytes) : List V :=
  match decoder payload with
  | .ok m => if m.type = .successPartial ∨ m.type = .successSequence then m.data else []
  | .error _ => []

/-- The in-order concatenation of the batches of a token. -/
def batches (decoder : Decoder V) (fs : List (ℤ × Bytes)) (token : ℤ) : List V :=
  (fs.filter (·.1 = token)).flatMap fun f => batchOf decoder f.2

def History.frames (h : History) : List (ℤ × Bytes) := h.map fun x => (x.1, x.2.1)

/-- Exceptions that betray a confusion of the driver itself. -/
def Exn.Internal (e : Exn V) : Prop := e = .key ∨ e = .driver "Unexpected response received."

/-- A cursor the server may still answer or that may still ask. -/
def Cursor.Live (c : Cursor V) : Prop := c.error = none ∨ 0 < c.outstandingRequests

/-- The account of one cursor; `returned` is what its `next` has given out. -/
structure Accounts (default : Decoder V) (s : ServerState V) (h : History) (returned : List V)
    (id : ℕ) (c : Cursor V) : Prop where
  started : s.requests.find? (·.token = c.query.token) = some c.query
  decoder : c.jsonDecoder = c.query.jsonDecoder.getD default
  token : 0 ≤ c.query.token ∧ c.query.token < 2 ^ 63
  asked : s.asked c.query.token = requested s c.query.token + 1
  heard : h.heard c.query.token = h.extended id + 1
  outstanding : c.outstandingRequests = requested s c.query.token - h.extended id
  bounds : 0 ≤ c.outstandingRequests ∧ c.outstandingRequests ≤ 2
  open_le : c.error = none → c.outstandingRequests ≤ 1
  items : returned ++ c.items <+: batches c.jsonDecoder h.frames c.query.token
  items_eq : c.error = none → returned ++ c.items = batches c.jsonDecoder h.frames c.query.token
  harmless : ∀ e, c.error = some e → ¬e.Internal

/-- Traffic under other tokens does not touch an account. -/
theorem Accounts.frame {s s' : ServerState V} {h : History} {returned : List V} {id : ℕ}
    {c : Cursor V} (ha : Accounts default s h returned id c) (new : List (Query V)) (hs : History)
    (hreq : s'.requests = s.requests ++ new) (hnew : ∀ q ∈ new, q.token ≠ c.query.token)
    (hhs : ∀ x ∈ hs, x.1 ≠ c.query.token ∧ x.2.2 ≠ .cursor id) :
    Accounts default s' (h ++ hs) returned id c := by
  have hrequested : requested s' c.query.token = requested s c.query.token := by
    rw [requested, requested, hreq, List.countP_append, Nat.add_eq_left, List.countP_eq_zero]
    intro q hq
    simp [hnew q hq]
  have hasked : s'.asked c.query.token = s.asked c.query.token := by
    rw [ServerState.asked, ServerState.asked, hreq, List.countP_append, Nat.add_eq_left,
      List.countP_eq_zero]
    intro q hq
    simp [hnew q hq]
  have hheard : History.heard (h ++ hs) c.query.token = h.heard c.query.token := by
    rw [History.heard, History.heard, List.countP_append, Nat.add_eq_left, List.countP_eq_zero]
    intro x hx
    simp [(hhs x hx).1]
  have hextended : History.extended (h ++ hs) id = h.extended id := by
    rw [History.extended, History.extended, List.countP_append, Nat.add_eq_left, List.countP_eq_zero]
    intro x hx
    simp [(hhs x hx).2]
  have hbatches : batches c.jsonDecoder (History.frames (h ++ hs)) c.query.token =
      batches c.jsonDecoder h.frames c.query.token := by
    have hnone : (History.frames hs).filter (·.1 = c.query.token) = [] := by
      rw [List.filter_eq_nil_iff]
      intro f hf
      obtain ⟨x, hx, rfl⟩ := List.mem_map.mp hf
      simp [(hhs x hx).1]
    unfold History.frames at hnone ⊢
    rw [batches, batches, List.map_append, List.filter_append, hnone, List.append_nil]
  refine ⟨?_, ha.decoder, ha.token, by rw [hasked, hrequested]; exact ha.asked,
    by rw [hheard, hextended]; exact ha.heard, by rw [hrequested, hextended]; exact ha.outstanding,
    ha.bounds, ha.open_le, by rw [hbatches]; exact ha.items,
    fun he => by rw [hbatches]; exact ha.items_eq he, ha.harmless⟩
  rw [hreq, List.find?_append, ha.started]
  rfl

theorem Response.makeError_explained (res : Response V) (hres : res.Explained) (query : Query V) :
    ∃ e, res.makeError query = .ok e ∧ ¬e.Internal := by
  have hdata : res.type = .clientError ∨ res.type = .compileError ∨ res.type = .runtimeError →
      ∃ v vs, res.data = v :: vs := fun htype => List.exists_cons_of_ne_nil (hres htype)
  unfold makeError
  cases htype : res.type with
  | clientError | compileError | runtimeError =>
    obtain ⟨v, vs, hcons⟩ := hdata (by simp [htype])
    simp only [hcons]
    exact ⟨_, rfl, by simp [Exn.Internal]⟩
  | _ => exact ⟨_, rfl, by simp [Exn.Internal]⟩

/-- What a response that explains its errors leaves of a cursor. -/
theorem Cursor.store_explained (c : Cursor V) (res : Response V) (hres : res.Explained) :
    ∃ error, c.store res = .ok { c with
        threshold := res.data.length
        items := if c.error = none ∧ res.IsBatch then c.items ++ res.data else c.items
        error } ∧
      (c.error ≠ none → error = c.error) ∧
      (error = none → c.error = none ∧ res.IsBatch) ∧
      ∀ e, error = some e → c.error = some e ∨ ¬e.Internal := by
  by_cases hbatch : res.IsBatch
  · refine ⟨(c.stored res).error, ?_, ?_⟩
    · simp [store_batch hbatch, stored, hbatch]
    unfold stored
    cases hc : c.error with
    | some e => simp
    | none => rcases hbatch with htype | htype <;> simp [htype, Response.IsBatch, Exn.Internal]
  · obtain ⟨e, he, hinternal⟩ := res.makeError_explained hres c.query
    cases c with | mk query items outstanding threshold error decoder =>
    unfold store
    cases error with
    | some e' => exact ⟨some e', by simp⟩
    | none =>
      refine ⟨some e, ?_, by simp, by simp, by simpa using hinternal⟩
      rw [if_neg fun h => hbatch h.2]
      split
      case h_1 htype => exact absurd (.inl htype) hbatch
      case h_2 htype => exact absurd (.inr htype) hbatch
      case h_3 =>
        simp only [he]
        rfl

namespace Accounts

variable {s s' : ServerState V} {h : History} {returned : List V} {id : ℕ} {c : Cursor V}

/-- An item is given out. -/
theorem pop (ha : Accounts default s h returned id c) {v : V} {vs : List V}
    (hitems : c.items = v :: vs) :
    Accounts default s h (returned ++ [v]) id { c with items := vs } := by
  have hcons : returned ++ [v] ++ vs = returned ++ c.items := by simp [hitems]
  exact ⟨ha.started, ha.decoder, ha.token, ha.asked, ha.heard, ha.outstanding, ha.bounds,
    ha.open_le, by rw [hcons]; exact ha.items, fun he => by rw [hcons]; exact ha.items_eq he,
    ha.harmless⟩

theorem fail (ha : Accounts default s h returned id c) {e : Exn V} (he : ¬e.Internal) :
    Accounts default s h returned id (c.fail e) :=
  ⟨ha.started, ha.decoder, ha.token, ha.asked, ha.heard, ha.outstanding, ha.bounds,
    by simp [Cursor.fail], ha.items, by simp [Cursor.fail], by rintro _ ⟨⟩; exact he⟩

/-- A `CONTINUE` or a `STOP` is sent. -/
theorem request (ha : Accounts default s h returned id c) {q : Query V}
    (hreq : s'.requests = s.requests ++ [q]) (htoken : q.token = c.query.token)
    (htype : q.type = .cont ∨ q.type = .stop) (hle : c.outstandingRequests ≤ 1)
    (hopen : c.error = none → c.outstandingRequests = 0) :
    Accounts default s' h returned id c.request := by
  have hasked : s'.asked c.query.token = s.asked c.query.token + 1 := by
    simp [ServerState.asked, hreq, htoken]
  have hrequested : requested s' c.query.token = requested s c.query.token + 1 := by
    simp [requested, hreq, htoken, htype]
  refine ⟨?_, ha.decoder, ha.token, ?_, ha.heard, ?_, ?_, ?_, ha.items, ha.items_eq, ha.harmless⟩
  · show s'.requests.find? (·.token = c.query.token) = some c.query
    rw [hreq, List.find?_append, ha.started]
    rfl
  · show s'.asked c.query.token = requested s' c.query.token + 1
    rw [hasked, hrequested, ha.asked]
  · show c.outstandingRequests + 1 = requested s' c.query.token - h.extended id
    rw [hrequested, ha.outstanding]
    push_cast
    ring
  · have := ha.bounds
    simp only [Cursor.request]
    omega
  · intro he
    have := hopen he
    simp only [Cursor.request]
    omega

/-- A response is taken in. -/
theorem take (ha : Accounts default s h returned id c) {buf : Bytes} {m : Message V}
    (hpos : 0 < c.outstandingRequests) (hdec : c.jsonDecoder buf = .ok m) (hm : m.Explained)
    {c' : Cursor V} (hstore : c.answered.store { m with token := c.query.token } = .ok c') :
    Accounts default s (h ++ [(c.query.token, buf, .cursor id)]) returned id c' := by
  obtain ⟨error, heq, hkeep, hnone, hsome⟩ :=
    c.answered.store_explained { m with token := c.query.token } hm
  rw [hstore, Except.ok.injEq] at heq
  have hheard : History.heard (h ++ [(c.query.token, buf, .cursor id)]) c.query.token =
      h.heard c.query.token + 1 := by
    simp [History.heard]
  have hextended : History.extended (h ++ [(c.query.token, buf, .cursor id)]) id =
      h.extended id + 1 := by
    simp [History.extended]
  have hbatches : batches c.jsonDecoder (History.frames (h ++ [(c.query.token, buf, .cursor id)]))
      c.query.token = batches c.jsonDecoder h.frames c.query.token ++ batchOf c.jsonDecoder buf := by
    simp [batches, History.frames, List.filter_append, List.flatMap_append]
  have hbatch : batchOf c.jsonDecoder buf =
      if Response.IsBatch { m with token := c.query.token } then m.data else [] := by
    simp [batchOf, hdec, Response.IsBatch]
  have hbounds := ha.bounds
  have hitems : c.error = none → returned ++ c'.items =
      batches c.jsonDecoder (History.frames (h ++ [(c.query.token, buf, .cursor id)]))
        c.query.token := by
    intro he
    rw [hbatches, hbatch, ← ha.items_eq he, heq]
    simp only [Cursor.answered, he, true_and]
    split_ifs <;> simp
  have hstarting : c.error ≠ none → returned ++ c'.items <+:
      batches c.jsonDecoder (History.frames (h ++ [(c.query.token, buf, .cursor id)]))
        c.query.token := by
    intro he
    have hkept : c'.items = c.items := by
      rw [heq]
      exact if_neg fun hand => he hand.1
    rw [hkept, hbatches]
    exact ha.items.trans (List.prefix_append ..)
  subst heq
  refine ⟨ha.started, ha.decoder, ha.token, ha.asked, ?_, ?_, ?_, ?_, ?_, ?_, ?_⟩
  · exact hheard.trans (by rw [hextended, ha.heard])
  · show c.outstandingRequests - 1 = requested s c.query.token -
      History.extended (h ++ [(c.query.token, buf, .cursor id)]) id
    rw [hextended, ha.outstanding]
    push_cast
    ring
  · simp only [Cursor.answered]
    omega
  · intro he
    have := ha.open_le (hnone he).1
    simp only [Cursor.answered]
    omega
  · by_cases he : c.error = none
    · exact (hitems he).symm ▸ List.prefix_rfl
    · exact hstarting he
  · exact fun he => hitems (hnone he).1
  · intro e he
    rcases hsome e he with hold | hnew
    · exact ha.harmless e hold
    · exact hnew

/-- The first response to a query opens its account. -/
theorem opened {q : Query V} {buf : Bytes} {m : Message V} {token : ℤ}
    (hfind : s.requests.find? (·.token = q.token) = some q) (hasked : s.asked q.token = 1)
    (hone : requested s q.token = 0) (htoken : 0 ≤ q.token ∧ q.token < 2 ^ 63)
    (hheard : h.filter (·.1 = q.token) = [(q.token, buf, .query)])
    (hext : h.extended id = 0) (hdec : q.jsonDecoder.getD default buf = .ok m)
    (hbatch : Response.IsBatch { m with token }) :
    Accounts default s h [] id
      (Cursor.stored { m with token } ⟨q, [], 0, 1, none, q.jsonDecoder.getD default⟩) := by
  have hbatches : batches (q.jsonDecoder.getD default) h.frames q.token = m.data := by
    have hframes : (History.frames h).filter (·.1 = q.token) = [(q.token, buf)] := by
      rw [History.frames, List.filter_map]
      show List.map _ (h.filter (·.1 = q.token)) = _
      rw [hheard]
      rfl
    rw [batches, hframes]
    have htype : m.type = .successPartial ∨ m.type = .successSequence := hbatch
    simp [batchOf, hdec, htype]
  refine ⟨hfind, rfl, htoken, by simp [Cursor.stored, hasked, hone], ?_, ?_, by simp [Cursor.stored],
    by simp [Cursor.stored], ?_, ?_, ?_⟩
  · show h.heard q.token = h.extended id + 1
    rw [hext, History.heard, List.countP_eq_length_filter, hheard]
    rfl
  · show (0 : ℤ) = requested s q.token - h.extended id
    rw [hone, hext]
    rfl
  · show [] ++ ([] ++ m.data) <+: batches (q.jsonDecoder.getD default) h.frames q.token
    rw [hbatches]
    exact List.prefix_rfl
  · intro _
    show [] ++ ([] ++ m.data) = batches (q.jsonDecoder.getD default) h.frames q.token
    rw [hbatches]
    rfl
  · intro e he
    simp only [Cursor.stored] at he
    split_ifs at he
    cases he
    simp [Exn.Internal]

end Accounts

namespace Driver

def state (d : Driver (conformingServer default proper)) : ServerState V := d.io.peer

/-- The books of the whole connection. `waiting` is the query whose first response is being
waited for, `returned` what the `next` of each cursor has given out. -/
structure Accounted (waiting : Option (Query V)) (returned : ℕ → List V)
    (d : Driver (conformingServer default proper)) : Prop where
  polite : d.state.Polite default proper
  decoder : d.jsonDecoder = default
  tokens : 0 ≤ d.nextToken ∧ ∀ q ∈ d.state.requests, 0 ≤ q.token ∧ q.token < d.nextToken
  cursors : ∀ (id : ℕ) (c : Cursor V), d.cursors[id]? = some c → Accounts default d.state d.handed (returned id) id c
  distinct : ∀ (id id' : ℕ) (c c' : Cursor V), d.cursors[id]? = some c → d.cursors[id']? = some c' →
    c.query.token = c'.query.token → id = id'
  cache : ∀ token id, d.cursorCache.lookup token = some id ↔
    ∃ c : Cursor V, d.cursors[id]? = some c ∧ c.query.token = token ∧ c.Live
  settled : ∀ token, (∀ (id : ℕ) (c : Cursor V), d.cursors[id]? = some c → c.query.token ≠ token) →
    d.state.asked token =
      History.heard d.handed token + if waiting.map Query.token = some token then 1 else 0
  waits : ∀ q, waiting = some q → d.state.requests.find? (·.token = q.token) = some q ∧
    d.state.asked q.token = 1 ∧ ∀ (id : ℕ) (c : Cursor V), d.cursors[id]? = some c → c.query.token ≠ q.token
  unopened : ∀ id, d.cursors.length ≤ id →
    returned id = [] ∧ History.extended d.handed id = 0
  addressed : ∀ x ∈ d.handed, x.2.2 ≠ .nobody

/-- One cursor moves on: requests under its token and frames for its `_extend` may be added. -/
theorem Accounted.update {waiting : Option (Query V)} {returned returned' : ℕ → List V}
    {d d' : Driver (conformingServer default proper)} (h : Accounted waiting returned d) {id : ℕ} {c c' : Cursor V}
    (new : List (Query V)) (hs : History) (hc : d.cursors[id]? = some c)
    (hcursors : d'.cursors = d.cursors.set id c') (hquery : c'.query = c.query)
    (hreq : d'.state.requests = d.state.requests ++ new)
    (hnew : ∀ q ∈ new, q.token = c.query.token)
    (hhand : d'.handed = d.handed ++ hs)
    (hhs : ∀ x ∈ hs, x.1 = c.query.token ∧ x.2.2 = .cursor id)
    (hacc : Accounts default d'.state d'.handed (returned' id) id c')
    (hreturned : ∀ j ≠ id, returned' j = returned j)
    (hcache : d'.cursorCache = d.cursorCache ∧ (c'.Live ↔ c.Live) ∨
      d'.cursorCache = d.cursorCache.erase c.query.token ∧ ¬c'.Live)
    (hpolite : d'.state.Polite default proper) (hnext : d'.nextToken = d.nextToken)
    (hdecoder : d'.jsonDecoder = d.jsonDecoder) : Accounted waiting returned' d' := by
  have hlt : id < d.cursors.length := (List.getElem?_eq_some_iff.mp hc).1
  have hget : ∀ j, d'.cursors[j]? = if j = id then some c' else d.cursors[j]? := by
    intro j
    rw [hcursors, List.getElem?_set]
    by_cases hj : j = id
    · simp [hj, hlt]
    · simp [hj, Ne.symm hj]
  -- a cursor of `d'` is one of `d` under the same token
  have hback : ∀ (j : ℕ) (e : Cursor V), d'.cursors[j]? = some e →
      ∃ e' : Cursor V, d.cursors[j]? = some e' ∧ e'.query.token = e.query.token := by
    intro j e he
    rw [hget] at he
    split_ifs at he with hj
    · cases he
      exact ⟨c, hj ▸ hc, by rw [hquery]⟩
    · exact ⟨e, he, rfl⟩
  have hforth : ∀ token, (∀ (j : ℕ) (e : Cursor V), d'.cursors[j]? = some e → e.query.token ≠ token) →
      ∀ (j : ℕ) (e : Cursor V), d.cursors[j]? = some e → e.query.token ≠ token := by
    intro token hno j e he
    by_cases hj : j = id
    · subst hj
      rw [hc] at he
      cases he
      exact hquery ▸ hno j c' (by rw [hget, if_pos rfl])
    · exact hno j e (by rw [hget, if_neg hj]; exact he)
  have hother : ∀ j e, j ≠ id → d.cursors[j]? = some e → e.query.token ≠ c.query.token :=
    fun j e hj he heq => hj (h.distinct j id e c he hc heq)
  refine ⟨hpolite, hdecoder.trans h.decoder, ?_, ?_, ?_, ?_, ?_, ?_, ?_, ?_⟩
  · rw [hnext, hreq]
    refine ⟨h.tokens.1, fun q hq => ?_⟩
    rcases List.mem_append.mp hq with hq | hq
    · exact h.tokens.2 q hq
    · have hfound := List.mem_of_find?_eq_some (h.cursors id c hc).started
      rw [hnew q hq]
      exact h.tokens.2 _ hfound
  · intro j e he
    rw [hget] at he
    split_ifs at he with hj
    · cases he
      exact hj ▸ hacc
    · rw [hhand, hreturned j hj]
      have hne := hother j e hj he
      refine (h.cursors j e he).frame _ _ hreq (fun q hq => ?_) fun x hx => ?_
      · rw [hnew q hq]
        exact Ne.symm hne
      · rw [(hhs x hx).1, (hhs x hx).2]
        exact ⟨Ne.symm hne, fun heq => hj (Recipient.cursor.inj heq).symm⟩
  · intro j j' e e' he he' htoken
    obtain ⟨f, hf, hft⟩ := hback j e he
    obtain ⟨f', hf', hft'⟩ := hback j' e' he'
    exact h.distinct j j' f f' hf hf' (hft.trans (htoken.trans hft'.symm))
  · intro token j
    rcases hcache with ⟨hsame, hlive⟩ | ⟨herase, hgone⟩
    · rw [hsame, h.cache, hget]
      split_ifs with hj
      · subst hj
        constructor
        · rintro ⟨e, he, htoken, hl⟩
          rw [hc] at he
          cases he
          exact ⟨c', rfl, by rw [hquery]; exact htoken, hlive.mpr hl⟩
        · rintro ⟨_, ⟨⟩, htoken, hl⟩
          exact ⟨c, hc, by rw [← hquery]; exact htoken, hlive.mp hl⟩
      · rfl
    · rw [herase, hget]
      by_cases htoken : token = c.query.token
      · subst htoken
        rw [AList.lookup_erase]
        refine ⟨by simp, ?_⟩
        rintro ⟨e, he, heq, hl⟩
        split_ifs at he with hj
        · cases he
          exact absurd hl hgone
        · exact absurd heq (hother j e hj he)
      · rw [AList.lookup_erase_ne htoken, h.cache]
        split_ifs with hj
        · subst hj
          constructor
          · rintro ⟨e, he, heq, -⟩
            rw [hc] at he
            cases he
            exact absurd heq.symm htoken
          · rintro ⟨_, ⟨⟩, heq, -⟩
            rw [hquery] at heq
            exact absurd heq.symm htoken
        · rfl
  · intro token hno
    have hne : token ≠ c.query.token := fun heq => hforth token hno id c hc heq.symm
    rw [ServerState.asked, hreq, List.countP_append, hhand, History.heard, List.countP_append]
    have hnew0 : new.countP (·.token = token) = 0 := by
      rw [List.countP_eq_zero]
      intro q hq
      simp [hnew q hq, Ne.symm hne]
    have hhs0 : hs.countP (·.1 = token) = 0 := by
      rw [List.countP_eq_zero]
      intro x hx
      simp [(hhs x hx).1, Ne.symm hne]
    rw [hnew0, hhs0]
    exact h.settled token (hforth token hno)
  · intro q hw
    obtain ⟨hfind, hone, hno⟩ := h.waits q hw
    have hne : c.query.token ≠ q.token := hno id c hc
    refine ⟨by rw [hreq, List.find?_append, hfind]; rfl, ?_, fun j e he => ?_⟩
    · rw [ServerState.asked, hreq, List.countP_append]
      have hnew0 : new.countP (·.token = q.token) = 0 := by
        rw [List.countP_eq_zero]
        intro r hr
        simp [hnew r hr, hne]
      rw [hnew0]
      exact hone
    · obtain ⟨f, hf, hft⟩ := hback j e he
      exact hft ▸ hno j f hf
  · intro j hj
    rw [hcursors, List.length_set] at hj
    obtain ⟨hnone, hextended⟩ := h.unopened j hj
    have hhs0 : hs.countP (·.2.2 = .cursor j) = 0 := by
      rw [List.countP_eq_zero]
      intro x hx
      have hne : id ≠ j := by omega
      simp [(hhs x hx).2, hne]
    rw [hreturned j (by omega), hhand, History.extended, List.countP_append, hhs0]
    exact ⟨hnone, hextended⟩
  · rw [hhand]
    intro x hx
    rcases List.mem_append.mp hx with hx | hx
    · exact h.addressed x hx
    · rw [(hhs x hx).2]
      simp

/-- The server may act and tokens may be passed over. -/
theorem Accounted.same {waiting : Option (Query V)} {returned : ℕ → List V}
    {d d' : Driver (conformingServer default proper)} (h : Accounted waiting returned d)
    (hpolite : d'.state.Polite default proper) (hreq : d'.state.requests = d.state.requests)
    (hdecoder : d'.jsonDecoder = d.jsonDecoder) (hnext : d.nextToken ≤ d'.nextToken)
    (hcursors : d'.cursors = d.cursors) (hcache : d'.cursorCache = d.cursorCache)
    (hhand : d'.handed = d.handed) : Accounted waiting returned d' := by
  have hasked : ∀ token, d'.state.asked token = d.state.asked token := fun token => by
    rw [ServerState.asked, ServerState.asked, hreq]
  refine ⟨hpolite, hdecoder.trans h.decoder, ?_, ?_, ?_, ?_, ?_, ?_, ?_, ?_⟩
  · rw [hreq]
    exact ⟨h.tokens.1.trans hnext, fun q hq =>
      ⟨(h.tokens.2 q hq).1, (h.tokens.2 q hq).2.trans_le hnext⟩⟩
  · rw [hcursors, hhand]
    intro id c hc
    simpa using (h.cursors id c hc).frame [] []
      (show d'.state.requests = d.state.requests ++ [] by simpa using hreq) (by simp) (by simp)
  · rw [hcursors]
    exact h.distinct
  · rw [hcursors, hcache]
    exact h.cache
  · rw [hcursors, hhand]
    intro token hno
    rw [hasked]
    exact h.settled token hno
  · rw [hcursors, hreq]
    intro q hq
    rw [hasked]
    exact h.waits q hq
  · rw [hcursors, hhand]
    exact h.unopened
  · rw [hhand]
    exact h.addressed

theorem Accounted.reads {waiting : Option (Query V)} {returned : ℕ → List V}
    {d d' : Driver (conformingServer default proper)} (h : Accounted waiting returned d)
    (hreads : Reads d d') : Accounted waiting returned d' := by
  obtain ⟨as, has⟩ := hreads.peer
  have hpeer : d'.state = ((conformingServer default proper).acts d.state as).1 := has
  obtain ⟨hpolite, hreq⟩ := ServerState.acts_polite as h.polite
  rw [← hpeer] at hpolite hreq
  have heq := hreads.eq
  exact h.same hpolite hreq (by rw [heq]) (by rw [heq]) (by rw [heq]) (by rw [heq]) (by rw [heq])

/-- A token that was never given out. -/
theorem Accounted.fresh {returned : ℕ → List V} {d : Driver (conformingServer default proper)}
    (h : Accounted none returned d) {token : ℤ} (htoken : d.nextToken ≤ token) :
    (∀ q ∈ d.state.requests, q.token ≠ token) ∧ d.state.asked token = 0 ∧
      History.heard d.handed token = 0 ∧
        ∀ (id : ℕ) (c : Cursor V), d.cursors[id]? = some c → c.query.token ≠ token := by
  have hreq : ∀ q ∈ d.state.requests, q.token ≠ token := fun q hq => by
    have := (h.tokens.2 q hq).2
    omega
  have hcursors : ∀ (id : ℕ) (c : Cursor V), d.cursors[id]? = some c → c.query.token ≠ token :=
    fun id c hc => hreq _ (List.mem_of_find?_eq_some (h.cursors id c hc).started)
  have hasked : d.state.asked token = 0 := by
    rw [ServerState.asked, List.countP_eq_zero]
    intro q hq
    simp [hreq q hq]
  have hsettled := h.settled token hcursors
  simp only [hasked, Option.map_none] at hsettled
  exact ⟨hreq, hasked, by simpa using hsettled.symm, hcursors⟩

/-- A query under the next token reaches the server, which will answer it. -/
theorem Accounted.ask {returned : ℕ → List V} {d d' : Driver (conformingServer default proper)}
    (h : Accounted none returned d) {q : Query V} (htoken : q.token = d.nextToken)
    (hpolite : d'.state.Polite default proper) (hreq : d'.state.requests = d.state.requests ++ [q])
    (hdecoder : d'.jsonDecoder = d.jsonDecoder) (hnext : d'.nextToken = d.nextToken + 1)
    (hcursors : d'.cursors = d.cursors) (hcache : d'.cursorCache = d.cursorCache)
    (hhand : d'.handed = d.handed) : Accounted (some q) returned d' := by
  obtain ⟨hfresh, hasked, hheard, hno⟩ := h.fresh htoken.ge
  have hasked' : ∀ token, d'.state.asked token =
      d.state.asked token + if q.token = token then 1 else 0 := fun token => by
    rw [ServerState.asked, ServerState.asked, hreq, List.countP_append, List.countP_singleton]
    simp
  refine ⟨hpolite, hdecoder.trans h.decoder, ?_, ?_, ?_, ?_, ?_, ?_, ?_, ?_⟩
  · rw [hreq, hnext]
    have hnn := h.tokens.1
    refine ⟨by omega, fun r hr => ?_⟩
    rcases List.mem_append.mp hr with hr | hr
    · have := h.tokens.2 r hr
      omega
    · rw [List.mem_singleton.mp hr]
      omega
  · rw [hcursors, hhand]
    intro id c hc
    simpa using (h.cursors id c hc).frame _ [] hreq
      (by simpa using (hno id c hc).symm) (by simp)
  · rw [hcursors]
    exact h.distinct
  · rw [hcursors, hcache]
    exact h.cache
  · rw [hcursors, hhand]
    intro token hno'
    have hsettled := h.settled token hno'
    rw [hasked', hsettled]
    simp
  · rw [hcursors]
    rintro _ ⟨⟩
    refine ⟨?_, by simp [hasked', hasked], hno⟩
    rw [hreq, List.find?_append, List.find?_eq_none.mpr (by simpa using hfresh)]
    simp
  · rw [hcursors, hhand]
    exact h.unopened
  · rw [hhand]
    exact h.addressed

/-- The first response to `q` has just been taken off the wire, as `buf`. -/
structure Answered (q : Query V) (buf : Bytes) (d : Driver (conformingServer default proper)) :
    Prop where
  asked : d.state.requests.find? (·.token = q.token) = some q ∧ d.state.asked q.token = 1
  handed : d.handed.filter (·.1 = q.token) = [(q.token, buf, .query)]
  unopened : ∀ (id : ℕ) (c : Cursor V), d.cursors[id]? = some c → c.query.token ≠ q.token

theorem Accounted.hear {returned : ℕ → List V} {d : Driver (conformingServer default proper)}
    {q : Query V} (h : Accounted (some q) returned d) (buf : Bytes) :
    Accounted none returned { d with handed := d.handed ++ [(q.token, buf, .query)] } ∧
      Answered q buf { d with handed := d.handed ++ [(q.token, buf, .query)] } := by
  obtain ⟨hfind, hone, hno⟩ := h.waits q rfl
  have hheard : History.heard d.handed q.token = 0 := by
    have := h.settled q.token hno
    simpa [hone] using this
  refine ⟨⟨h.polite, h.decoder, h.tokens, fun id c hc => ?_, h.distinct, h.cache, fun token hno' => ?_,
    by simp, fun id hid => ?_, fun x hx => ?_⟩, ⟨hfind, hone⟩, ?_, hno⟩
  · exact (h.cursors id c hc).frame [] _ (by simp; rfl) (by simp)
      (by simpa using (hno id c hc).symm)
  · have hsettled := h.settled token hno'
    simp only [History.heard, List.countP_append, List.countP_singleton] at hsettled ⊢
    rw [state] at hsettled ⊢
    rw [hsettled]
    simp
  · simpa [History.extended] using h.unopened id hid
  · rcases List.mem_append.mp hx with hx | hx
    · exact h.addressed x hx
    · rw [List.mem_singleton.mp hx]
      simp
  · have hnil : d.handed.filter (·.1 = q.token) = [] := by
      rw [List.filter_eq_nil_iff]
      exact List.countP_eq_zero.mp hheard
    rw [List.filter_append, hnil]
    simp

/-- A cursor is opened for an answered query. -/
theorem Accounted.register {returned : ℕ → List V} {d d' : Driver (conformingServer default proper)}
    (h : Accounted none returned d) {q : Query V} {buf : Bytes} (ha : Answered q buf d)
    {c : Cursor V} {new : List (Query V)} (hquery : c.query = q) (hlive : c.Live)
    (hcursors : d'.cursors = d.cursors ++ [c])
    (hcache : d'.cursorCache = d.cursorCache.insert q.token d.cursors.length)
    (hreq : d'.state.requests = d.state.requests ++ new) (hnew : ∀ r ∈ new, r.token = q.token)
    (hhand : d'.handed = d.handed)
    (hacc : Accounts default d'.state d'.handed [] d.cursors.length c)
    (hpolite : d'.state.Polite default proper) (hnext : d'.nextToken = d.nextToken)
    (hdecoder : d'.jsonDecoder = d.jsonDecoder) : Accounted none returned d' := by
  have hget : ∀ j, d'.cursors[j]? = if j = d.cursors.length then some c else d.cursors[j]? := by
    intro j
    rw [hcursors, List.getElem?_append]
    split_ifs with hlt heq heq
    · omega
    · rfl
    · simp [heq]
    · rw [List.getElem?_eq_none (by simp; omega), List.getElem?_eq_none (by omega)]
  have hold : ∀ j (e : Cursor V), d.cursors[j]? = some e → j ≠ d.cursors.length := by
    intro j e he
    have := (List.getElem?_eq_some_iff.mp he).1
    omega
  have hforth : ∀ j (e : Cursor V), d.cursors[j]? = some e → d'.cursors[j]? = some e :=
    fun j e he => by rw [hget, if_neg (hold j e he), he]
  obtain ⟨hnone, -⟩ := h.unopened d.cursors.length le_rfl
  refine ⟨hpolite, hdecoder.trans h.decoder, ?_, ?_, ?_, ?_, ?_, by simp, ?_, ?_⟩
  · rw [hnext, hreq]
    refine ⟨h.tokens.1, fun r hr => ?_⟩
    rcases List.mem_append.mp hr with hr | hr
    · exact h.tokens.2 r hr
    · rw [hnew r hr]
      exact h.tokens.2 _ (List.mem_of_find?_eq_some ha.asked.1)
  · intro j e he
    rw [hget] at he
    split_ifs at he with hj
    · cases he
      rw [hj, hnone]
      exact hacc
    · have hne := ha.unopened j e he
      rw [hhand]
      simpa using (h.cursors j e he).frame _ [] hreq
        (fun r hr => by rw [hnew r hr]; exact Ne.symm hne) (by simp)
  · intro j j' e e' he he' htoken
    rw [hget] at he he'
    split_ifs at he he' with hj hj' hj'
    · omega
    · cases he
      exact absurd (htoken ▸ hquery ▸ rfl) (ha.unopened j' e' he')
    · cases he'
      exact absurd (htoken.trans (by rw [hquery])) (ha.unopened j e he)
    · exact h.distinct j j' e e' he he' htoken
  · intro token j
    rw [hcache, hget]
    by_cases htoken : token = q.token
    · subst htoken
      rw [AList.lookup_insert, Option.some.injEq]
      split_ifs with hj
      · exact ⟨fun _ => ⟨c, rfl, by rw [hquery], hlive⟩, fun _ => hj.symm⟩
      · refine ⟨fun heq => absurd heq.symm hj, ?_⟩
        rintro ⟨e, he, heq, -⟩
        exact absurd heq (ha.unopened j e he)
    · rw [AList.lookup_insert_ne htoken, h.cache]
      split_ifs with hj
      · refine ⟨?_, ?_⟩
        · rintro ⟨e, he, -⟩
          exact absurd hj (hold j e he)
        · rintro ⟨_, ⟨⟩, heq, -⟩
          exact absurd (heq.symm.trans (by rw [hquery])) htoken
      · rfl
  · intro token hno
    have hne : q.token ≠ token :=
      hquery ▸ hno d.cursors.length c (by rw [hget, if_pos rfl])
    have hnew0 : new.countP (·.token = token) = 0 := by
      rw [List.countP_eq_zero]
      intro r hr
      simp [hnew r hr, hne]
    rw [ServerState.asked, hreq, List.countP_append, hhand, hnew0]
    exact h.settled token fun j e he => hno j e (hforth j e he)
  · intro j hj
    rw [hcursors, List.length_append, List.length_singleton] at hj
    rw [hhand]
    exact h.unopened j (by omega)
  · rw [hhand]
    exact h.addressed

end Driver
end RethinkDB.Net
