import RethinkDB.Lib.Machine
import RethinkDB.Async.Instance
import RethinkDB.Net.Server

/-! Calls of `run_query`, the server's answers and the reader, in any order: one task at a time runs, up
to a place where it waits. -/
namespace RethinkDB.Async
open RethinkDB.Lib Net Prog

variable {V : Type}

/-- Where a call of `run_query` stands: `handed` from the moment the server has the request until the
call runs on. -/
inductive Phase where
  | sending | handed
  | waiting (future : ℕ)
  deriving Repr, DecidableEq

structure Caller (V : Type) where
  query : Query V
  phase : Phase

/-- `owed` are the tokens of requests not answered yet, `incoming` the answers under way, and `failure`
what the reader raised. `heard`, the frames it has taken, and `cancelled`, the tokens of cancelled
calls, are history. -/
structure Traffic (V : Type) where
  inst : Instance V
  nextToken : ℤ
  calls : AList (fun _ : ℤ => Caller V)
  owed : List ℤ
  incoming : List (ℤ × Bytes)
  heard : List (ℤ × Bytes)
  cancelled : List ℤ
  failure : Option (Exn V)

inductive TrafficStep (V : Type) where
  | call (query : Query V)
  /-- A call that gets no answer: `noreply`, or a query that does not serialize. -/
  | silent
  | handOver (token : ℤ)
  | resume (token : ℤ)
  | cancel (token : ℤ)
  | fetch (id : ℕ)
  | next (id : ℕ)
  | closeCursor (id : ℕ)
  | sendRequest (token : ℤ)
  | answer (token : ℤ) (payload : Bytes)
  | read

namespace Traffic

/-- The Trio and the Tornado driver wait for the stream before they go on. -/
def call (driver : Driver) (query : Query V) (T : Traffic V) : Traffic V :=
  match driver with
  | .asyncio => { T with
      inst := T.inst.register query
      nextToken := T.nextToken + 1
      calls := T.calls.insert query.token ⟨query, .waiting T.inst.futures.length⟩
      owed := T.owed ++ [query.token] }
  | .trio | .tornado => { T with
      nextToken := T.nextToken + 1
      calls := T.calls.insert query.token ⟨query, .sending⟩ }

def failed : Outcome (Exn V) Unit → Option (Exn V)
  | .error e => some e
  | _ => none

/-- `conforms` is what the server keeps to in its answers, as they decode. -/
inductive Step (driver : Driver) (conforms : Except String (Message V) → Prop) :
    Traffic V → TrafficStep V → Traffic V → Prop
  | call {T : Traffic V} {query} : T.failure = none → query.token = T.nextToken →
      Step driver conforms T (.call query) (T.call driver query)
  | silent {T} : T.failure = none →
      Step driver conforms T .silent { T with nextToken := T.nextToken + 1 }
  | handOver {T token query} : T.failure = none → T.calls.lookup token = some ⟨query, .sending⟩ →
      Step driver conforms T (.handOver token) { T with
        calls := T.calls.insert token ⟨query, .handed⟩
        owed := T.owed ++ [token] }
  | resume {T token query} : T.failure = none → T.calls.lookup token = some ⟨query, .handed⟩ →
      Step driver conforms T (.resume token) { T with
        inst := T.inst.register query
        calls := T.calls.insert token ⟨query, .waiting T.inst.futures.length⟩ }
  -- an asyncio future is cancelled along with the task that awaits it
  | cancel {T token query future} : T.failure = none → driver = .asyncio →
      T.calls.lookup token = some ⟨query, .waiting future⟩ → T.inst.futures[future]? = some .pending →
      Step driver conforms T (.cancel token) { T with
        inst := { T.inst with futures := T.inst.futures.set future .cancelled }
        cancelled := T.cancelled ++ [token] }
  | fetch {T id inst} : T.failure = none → id < T.inst.cursors.length →
      Instance.maybeFetchBatch id T.inst = (.ok (), inst) → Step driver conforms T (.fetch id) { T with inst }
  | next {T id c v vs} : T.failure = none → T.inst.cursors[id]? = some c → c.items = v :: vs →
      Step driver conforms T (.next id) { T with
        inst := { T.inst with cursors := T.inst.cursors.set id { c with items := vs } } }
  | closeCursor {T id inst} : T.failure = none → id < T.inst.cursors.length →
      Instance.closeCursor id T.inst = (.ok (), inst) →
      Step driver conforms T (.closeCursor id) { T with inst }
  | sendRequest {T before token after} : T.failure = none → T.inst.unsent = before ++ token :: after →
      Step driver conforms T (.sendRequest token) { T with
        inst := { T.inst with unsent := before ++ after }
        owed := T.owed ++ [token] }
  | answer {T before token after caller payload} : T.failure = none → T.owed = before ++ token :: after →
      T.calls.lookup token = some caller → conforms (T.inst.getJsonDecoder caller.query payload) →
      Step driver conforms T (.answer token payload) { T with
        owed := before ++ after
        incoming := T.incoming ++ [(token, payload)] }
  | read {T token payload rest o inst} : T.failure = none → T.incoming = (token, payload) :: rest →
      Instance.handleFrame driver token payload T.inst = (o, inst) →
      Step driver conforms T .read { T with
        inst
        incoming := rest
        heard := T.heard ++ [(token, payload)]
        failure := failed o }

/-- A server whose answers have what their types promise: a datum in an atom, a text in an error. -/
def Conforming (answer : Except String (Message V)) : Prop :=
  ∃ m, answer = .ok m ∧ m.Explained ∧ (m.type = .successAtom ∨ m.type = .serverInfo → m.data ≠ [])

structure Fresh (T : Traffic V) : Prop where
  isOpen : T.inst.isOpen = true
  closing : T.inst.closing = false
  userQueries : T.inst.userQueries = ∅
  cursorCache : T.inst.cursorCache = ∅
  cursors : T.inst.cursors = []
  futures : T.inst.futures = []
  unsent : T.inst.unsent = []
  calls : T.calls = ∅
  owed : T.owed = []
  incoming : T.incoming = []
  heard : T.heard = []
  cancelled : T.cancelled = []
  failure : T.failure = none

def machine (driver : Driver) (conforms : Except String (Message V) → Prop) :
    Machine (Traffic V) (TrafficStep V) := ⟨Fresh, Step driver conforms⟩

/-! ### The books -/

/-- How many frames under this token are still to be read. -/
def due (T : Traffic V) (t : ℤ) : ℕ :=
  T.inst.unsent.count t + T.owed.count t + (T.incoming.map Prod.fst).count t

structure Quiet (T : Traffic V) (t : ℤ) (n : ℕ) : Prop where
  due : T.due t = n
  cache : T.inst.cursorCache.lookup t = none
  queries : T.inst.userQueries.lookup t = none

structure Waits (T : Traffic V) (t : ℤ) (q : Query V) (future : ℕ) : Prop where
  due : T.due t = 1
  cache : T.inst.cursorCache.lookup t = none
  queries : T.inst.userQueries.lookup t = some (q, future)

structure Streams (T : Traffic V) (t : ℤ) (q : Query V) (id : ℕ) (c : Cursor V) : Prop where
  queries : T.inst.userQueries.lookup t = none
  cache : T.inst.cursorCache.lookup t = some id
  cursor : T.inst.cursors[id]? = some c
  query : c.query = q
  decoder : c.jsonDecoder = T.inst.getJsonDecoder q
  outstanding : c.outstandingRequests = T.due t

/-- What a phase means for the token of the call. -/
def Stands (T : Traffic V) (t : ℤ) (q : Query V) : Phase → Prop
  | .sending => T.Quiet t 0
  | .handed => T.Quiet t 1
  | .waiting future => T.Waits t q future ∨ (∃ id c, T.Streams t q id c) ∨ T.Quiet t 0

def Station (T : Traffic V) (t : ℤ) : Prop :=
  match T.calls.lookup t with
  | none => T.Quiet t 0
  | some caller => caller.query.token = t ∧ T.Stands t caller.query caller.phase

structure Balanced (T : Traffic V) : Prop where
  station : ∀ t, T.Station t
  live : ∀ id c, T.inst.cursors[id]? = some c → c.error = none →
    T.inst.cursorCache.lookup c.query.token = some id
  tokens : ∀ t, T.calls.lookup t ≠ none → t < T.nextToken
  isOpen : T.inst.isOpen = true
  closing : T.inst.closing = false

structure Same (t : ℤ) (T T' : Traffic V) : Prop where
  calls : T'.calls.lookup t = T.calls.lookup t
  due : T'.due t = T.due t
  cache : T'.inst.cursorCache.lookup t = T.inst.cursorCache.lookup t
  queries : T'.inst.userQueries.lookup t = T.inst.userQueries.lookup t
  decoder : T'.inst.jsonDecoder = T.inst.jsonDecoder
  cursors : ∀ (id : ℕ) (c : Cursor V), T.inst.cursors[id]? = some c → c.query.token = t →
    ∃ items, T'.inst.cursors[id]? = some { c with items }

variable {T T' : Traffic V} {t : ℤ}

theorem Same.quiet {n : ℕ} (h : Same t T T') (hq : T.Quiet t n) : T'.Quiet t n :=
  ⟨h.due.trans hq.due, h.cache.trans hq.cache, h.queries.trans hq.queries⟩

theorem Same.station (h : Same t T T') (hs : T.Station t) : T'.Station t := by
  unfold Station at *
  rw [h.calls]
  cases hcall : T.calls.lookup t with
  | none =>
    rw [hcall] at hs
    exact h.quiet hs
  | some caller =>
    obtain ⟨q, phase⟩ := caller
    rw [hcall] at hs
    obtain ⟨htoken, hs⟩ := hs
    refine ⟨htoken, ?_⟩
    cases phase with
    | sending => exact h.quiet hs
    | handed => exact h.quiet hs
    | waiting future =>
      rcases hs with hw | ⟨id, c, hstreams⟩ | hquiet
      · exact .inl ⟨h.due.trans hw.due, h.cache.trans hw.cache, h.queries.trans hw.queries⟩
      · have hcursor : c.query.token = t := by rw [hstreams.query, htoken]
        obtain ⟨items, hc⟩ := h.cursors id c hstreams.cursor hcursor
        refine .inr (.inl ⟨id, _, h.queries.trans hstreams.queries, h.cache.trans hstreams.cache, hc,
          hstreams.query, ?_, ?_⟩)
        · rw [hstreams.decoder]
          unfold Instance.getJsonDecoder
          rw [h.decoder]
        · rw [hstreams.outstanding, h.due]
      · exact .inr (.inr (h.quiet hquiet))

theorem Balanced.update (h : T.Balanced) (t : ℤ) (hothers : ∀ t', t' ≠ t → Same t' T T')
    (hstation : T'.Station t)
    (hlive : ∀ id c, T'.inst.cursors[id]? = some c → c.error = none →
      T'.inst.cursorCache.lookup c.query.token = some id)
    (htokens : ∀ t, T'.calls.lookup t ≠ none → t < T'.nextToken)
    (hopen : T'.inst.isOpen = T.inst.isOpen) (hclosing : T'.inst.closing = T.inst.closing) :
    T'.Balanced where
  station := by
    intro t'
    by_cases ht : t' = t
    · rw [ht]
      exact hstation
    · exact (hothers t' ht).station (h.station t')
  live := hlive
  tokens := htokens
  isOpen := hopen.trans h.isOpen
  closing := hclosing.trans h.closing

/-- A cached cursor is in the books. -/
theorem Balanced.cached (h : T.Balanced) {id : ℕ} (hid : T.inst.cursorCache.lookup t = some id) :
    ∃ q future c, T.calls.lookup t = some ⟨q, .waiting future⟩ ∧ q.token = t ∧ T.Streams t q id c := by
  have hstation := h.station t
  have hnot : ∀ n, ¬T.Quiet t n := by
    intro n hquiet
    cases hid.symm.trans hquiet.cache
  unfold Station at hstation
  cases hcall : T.calls.lookup t with
  | none =>
    rw [hcall] at hstation
    exact absurd hstation (hnot 0)
  | some caller =>
    obtain ⟨q, phase⟩ := caller
    rw [hcall] at hstation
    obtain ⟨htoken, hphase⟩ := hstation
    cases phase with
    | sending => exact absurd hphase (hnot 0)
    | handed => exact absurd hphase (hnot 1)
    | waiting future =>
      rcases hphase with hwaits | ⟨id', c, hstreams⟩ | hquiet
      · cases hid.symm.trans hwaits.cache
      · obtain rfl : id' = id := Option.some.inj (hstreams.cache.symm.trans hid)
        exact ⟨q, future, c, rfl, htoken, hstreams⟩
      · exact absurd hquiet (hnot 0)

/-- A cursor without an error is in the books. -/
theorem Balanced.open (h : T.Balanced) {id : ℕ} {c : Cursor V} (hc : T.inst.cursors[id]? = some c)
    (herr : c.error = none) : ∃ future, T.calls.lookup c.query.token = some ⟨c.query, .waiting future⟩ ∧
      T.Streams c.query.token c.query id c := by
  obtain ⟨q, future, c', hcall, htoken, hstreams⟩ := h.cached (h.live id c hc herr)
  obtain rfl : c = c' := Option.some.inj (hc.symm.trans hstreams.cursor)
  obtain rfl : c.query = q := hstreams.query
  exact ⟨future, hcall, hstreams⟩

/-- A step of one cursor: the books stay right if it counts what is due. -/
theorem Balanced.cursor (h : T.Balanced) {q : Query V} {future id : ℕ} {c c' : Cursor V}
    (hcall : T.calls.lookup t = some ⟨q, .waiting future⟩) (htoken : q.token = t)
    (hstreams : T.Streams t q id c) (hquery : c'.query = c.query) (hdecoder : c'.jsonDecoder = c.jsonDecoder)
    (herror : c'.error = none → c.error = none)
    (hcalls : T'.calls = T.calls) (hnext : T'.nextToken = T.nextToken)
    (hinst : T'.inst = { T.inst with
      cursors := T.inst.cursors.set id c'
      cursorCache := T'.inst.cursorCache
      unsent := T'.inst.unsent })
    (hcache : T'.inst.cursorCache = T.inst.cursorCache ∨
      T'.inst.cursorCache = T.inst.cursorCache.erase t ∧ c'.error ≠ none ∧ c'.outstandingRequests = 0)
    (hothers : ∀ t', t' ≠ t → T'.due t' = T.due t') (hdue : c'.outstandingRequests = T'.due t) :
    T'.Balanced := by
  have hcursors : T'.inst.cursors = T.inst.cursors.set id c' := by rw [hinst]
  have hqueries : T'.inst.userQueries = T.inst.userQueries := by rw [hinst]
  have hdefault : T'.inst.jsonDecoder = T.inst.jsonDecoder := by rw [hinst]
  have hlt : id < T.inst.cursors.length := (List.getElem?_eq_some_iff.mp hstreams.cursor).1
  have htokens : c.query.token = t := by rw [hstreams.query, htoken]
  have hlookup : ∀ t', t' ≠ t → T'.inst.cursorCache.lookup t' = T.inst.cursorCache.lookup t' := by
    intro t' ht
    rcases hcache with hsame | ⟨herased, -⟩
    · rw [hsame]
    · rw [herased, AList.lookup_erase_ne ht]
  apply h.update t
  · intro t' ht
    refine ⟨by rw [hcalls], hothers t' ht, hlookup t' ht, by rw [hqueries], hdefault, ?_⟩
    intro id' c₁ hc₁ ht₁
    have hne : id ≠ id' := by
      rintro rfl
      obtain rfl : c = c₁ := Option.some.inj (hstreams.cursor.symm.trans hc₁)
      exact ht (ht₁.symm.trans htokens)
    rw [hcursors, List.getElem?_set_ne hne]
    exact ⟨c₁.items, hc₁⟩
  · unfold Station
    rw [hcalls, hcall]
    refine ⟨htoken, .inr ?_⟩
    rcases hcache with hsame | ⟨herased, -, hzero⟩
    · left
      refine ⟨id, c', by rw [hqueries]; exact hstreams.queries, by rw [hsame]; exact hstreams.cache, ?_,
        hquery.trans hstreams.query, ?_, hdue⟩
      · rw [hcursors]
        simp [hlt]
      · rw [hdecoder, hstreams.decoder]
        unfold Instance.getJsonDecoder
        rw [hdefault]
    · right
      refine ⟨?_, by rw [herased, AList.lookup_erase], by rw [hqueries]; exact hstreams.queries⟩
      exact_mod_cast hdue.symm.trans hzero
  · intro id' c₁ hc₁ herr₁
    rw [hcursors, List.getElem?_set] at hc₁
    split_ifs at hc₁ with hid
    · subst hid
      obtain rfl : c' = c₁ := Option.some.inj hc₁
      rcases hcache with hsame | ⟨-, hfailed, -⟩
      · rw [hquery, hsame]
        exact h.live id c hstreams.cursor (herror herr₁)
      · exact absurd herr₁ hfailed
    · have hcached := h.live id' c₁ hc₁ herr₁
      rw [hlookup, hcached]
      intro heq
      rw [heq, hstreams.cache] at hcached
      exact hid (Option.some.inj hcached)
  · rw [hcalls, hnext]
    exact h.tokens
  · rw [hinst]
  · rw [hinst]

/-- A step that leaves every token where it stands. -/
theorem Balanced.frame (h : T.Balanced) (hsame : ∀ t, Same t T T')
    (hlive : ∀ (id : ℕ) (c : Cursor V), T'.inst.cursors[id]? = some c → c.error = none →
      ∃ c₀ : Cursor V, T.inst.cursors[id]? = some c₀ ∧ c₀.error = none ∧ c₀.query = c.query)
    (hnext : T.nextToken ≤ T'.nextToken) (hopen : T'.inst.isOpen = T.inst.isOpen)
    (hclosing : T'.inst.closing = T.inst.closing) : T'.Balanced := by
  apply h.update 0
  · exact fun t _ => hsame t
  · exact (hsame 0).station (h.station 0)
  · intro id c hc herr
    obtain ⟨c₀, hc₀, herr₀, hquery⟩ := hlive id c hc herr
    rw [(hsame _).cache, ← hquery]
    exact h.live id c₀ hc₀ herr₀
  · intro t ht
    rw [(hsame t).calls] at ht
    exact (h.tokens t ht).trans_le hnext
  · exact hopen
  · exact hclosing

/-- A call enters a new phase. -/
theorem Balanced.phase (h : T.Balanced) {query : Query V} {phase : Phase} (htoken : query.token = t)
    (hcalls : T'.calls = T.calls.insert t ⟨query, phase⟩)
    (hcursors : T'.inst.cursors = T.inst.cursors)
    (hcache : T'.inst.cursorCache = T.inst.cursorCache)
    (hqueries : ∀ t', t' ≠ t → T'.inst.userQueries.lookup t' = T.inst.userQueries.lookup t')
    (hdecoder : T'.inst.jsonDecoder = T.inst.jsonDecoder)
    (hothers : ∀ t', t' ≠ t → T'.due t' = T.due t')
    (hstands : T'.Stands t query phase)
    (ht : t < T'.nextToken) (hnext : T.nextToken ≤ T'.nextToken)
    (hopen : T'.inst.isOpen = T.inst.isOpen) (hclosing : T'.inst.closing = T.inst.closing) :
    T'.Balanced := by
  apply h.update t
  · intro t' hne
    refine ⟨?_, hothers t' hne, by rw [hcache], hqueries t' hne, hdecoder, ?_⟩
    · rw [hcalls, AList.lookup_insert_ne hne]
    · intro id c hc _
      rw [hcursors]
      exact ⟨c.items, hc⟩
  · unfold Station
    rw [hcalls, AList.lookup_insert]
    exact ⟨htoken, hstands⟩
  · rw [hcursors, hcache]
    exact h.live
  · intro t' ht'
    by_cases hne : t' = t
    · rw [hne]
      exact ht
    · rw [hcalls, AList.lookup_insert_ne hne] at ht'
      exact (h.tokens t' ht').trans_le hnext
  · exact hopen
  · exact hclosing

theorem Balanced.fresh_token (h : T.Balanced) : T.Quiet T.nextToken 0 := by
  have hnone : T.calls.lookup T.nextToken = none := by
    by_contra hne
    exact absurd (h.tokens _ hne) (lt_irrefl _)
  have hstation := h.station T.nextToken
  unfold Station at hstation
  rw [hnone] at hstation
  exact hstation

theorem Balanced.call (h : T.Balanced) {query : Query V} (htoken : query.token = T.nextToken)
    (driver : Driver) : (T.call driver query).Balanced := by
  have hfresh := h.fresh_token
  rw [← htoken] at hfresh
  have hlt : query.token < T.nextToken + 1 := by omega
  have hle : T.nextToken ≤ T.nextToken + 1 := by omega
  cases driver with
  | asyncio =>
    have hdue : ∀ t, (T.call .asyncio query).due t = T.due t + [query.token].count t := by
      intro t
      simp only [due, Traffic.call, Instance.register, List.count_append]
      omega
    refine h.phase rfl rfl rfl rfl ?_ rfl ?_ ?_ hlt hle rfl rfl
    · intro t' ht
      exact AList.lookup_insert_ne ht
    · intro t' ht
      rw [hdue, List.count_singleton]
      simp [Ne.symm ht]
    · left
      refine ⟨?_, hfresh.cache, AList.lookup_insert _⟩
      rw [hdue, hfresh.due]
      simp
  | trio =>
    exact h.phase rfl rfl rfl rfl (fun _ _ => rfl) rfl (fun _ _ => rfl)
      ⟨hfresh.due, hfresh.cache, hfresh.queries⟩ hlt hle rfl rfl
  | tornado =>
    exact h.phase rfl rfl rfl rfl (fun _ _ => rfl) rfl (fun _ _ => rfl)
      ⟨hfresh.due, hfresh.cache, hfresh.queries⟩ hlt hle rfl rfl

/-- Where the token of a call in the window stands. -/
theorem Balanced.handed (h : T.Balanced) {query : Query V}
    (hcall : T.calls.lookup t = some ⟨query, .handed⟩) :
    query.token = t ∧ T.Quiet t 1 ∧ t < T.nextToken := by
  have hstation := h.station t
  unfold Station at hstation
  rw [hcall] at hstation
  exact ⟨hstation.1, hstation.2, h.tokens t (by simp [hcall])⟩

theorem Balanced.handOver (h : T.Balanced) {query : Query V}
    (hcall : T.calls.lookup t = some ⟨query, .sending⟩) :
    Balanced { T with calls := T.calls.insert t ⟨query, .handed⟩, owed := T.owed ++ [t] } := by
  have hstation := h.station t
  unfold Station at hstation
  rw [hcall] at hstation
  obtain ⟨htoken, hquiet⟩ := hstation
  have hdue : ∀ t', due { T with calls := T.calls.insert t ⟨query, .handed⟩, owed := T.owed ++ [t] } t' =
      T.due t' + [t].count t' := by
    intro t'
    simp only [due, List.count_append]
    omega
  have hlt : t < T.nextToken := h.tokens t (by simp [hcall])
  refine h.phase htoken rfl rfl rfl (fun _ _ => rfl) rfl ?_ ?_ hlt (le_refl _) rfl rfl
  · intro t' ht
    rw [hdue, List.count_singleton]
    simp [Ne.symm ht]
  · refine ⟨?_, hquiet.cache, hquiet.queries⟩
    rw [hdue, hquiet.due]
    simp

theorem Balanced.resume (h : T.Balanced) {query : Query V}
    (hcall : T.calls.lookup t = some ⟨query, .handed⟩) :
    Balanced { T with
      inst := T.inst.register query
      calls := T.calls.insert t ⟨query, .waiting T.inst.futures.length⟩ } := by
  obtain ⟨rfl, hquiet, hlt⟩ := h.handed hcall
  refine h.phase rfl rfl rfl rfl ?_ rfl (fun _ _ => rfl) ?_ hlt (le_refl _) rfl rfl
  · intro t' ht
    exact AList.lookup_insert_ne ht
  · exact .inl ⟨hquiet.due, hquiet.cache, AList.lookup_insert _⟩

/-- One more request of a cursor. -/
theorem Balanced.request (h : T.Balanced) {id : ℕ} {c c' : Cursor V}
    (hc : T.inst.cursors[id]? = some c) (herr : c.error = none) (hquery : c'.query = c.query)
    (hdecoder : c'.jsonDecoder = c.jsonDecoder) (hone : c'.outstandingRequests = c.outstandingRequests + 1) :
    Balanced { T with inst := { T.inst with
      cursors := T.inst.cursors.set id c'
      unsent := T.inst.unsent ++ [c.query.token] } } := by
  obtain ⟨future, hcall, hstreams⟩ := h.open hc herr
  have hdue : ∀ t, due { T with inst := { T.inst with
      cursors := T.inst.cursors.set id c'
      unsent := T.inst.unsent ++ [c.query.token] } } t = T.due t + [c.query.token].count t := by
    intro t
    simp only [due, List.count_append]
    omega
  refine h.cursor hcall rfl hstreams hquery hdecoder (fun _ => herr) rfl rfl rfl (.inl rfl) ?_ ?_
  · intro t' ht
    rw [hdue, List.count_singleton]
    simp [Ne.symm ht]
  · rw [hdue, hone, hstreams.outstanding]
    simp

/-- A step that only moves messages along, or cancels a future. -/
theorem Balanced.moved (h : T.Balanced) (hcalls : T'.calls = T.calls) (hnext : T.nextToken ≤ T'.nextToken)
    (hinst : T'.inst = { T.inst with unsent := T'.inst.unsent, futures := T'.inst.futures })
    (hdue : ∀ t, T'.due t = T.due t) : T'.Balanced := by
  have hcursors : T'.inst.cursors = T.inst.cursors := by rw [hinst]
  apply h.frame
  · intro t
    refine ⟨by rw [hcalls], hdue t, by rw [hinst], by rw [hinst], by rw [hinst], ?_⟩
    intro id c hc _
    rw [hcursors]
    exact ⟨c.items, hc⟩
  · intro id c hc herr
    rw [hcursors] at hc
    exact ⟨c, hc, herr, rfl⟩
  · exact hnext
  · rw [hinst]
  · rw [hinst]

/-- `next` takes an item that is there. -/
theorem Balanced.next (h : T.Balanced) {id : ℕ} {c : Cursor V} (hc : T.inst.cursors[id]? = some c)
    (vs : List V) : Balanced { T with
      inst := { T.inst with cursors := T.inst.cursors.set id { c with items := vs } } } := by
  have hlt : id < T.inst.cursors.length := (List.getElem?_eq_some_iff.mp hc).1
  apply h.frame
  · intro t
    refine ⟨rfl, rfl, rfl, rfl, rfl, ?_⟩
    intro id' c₁ hc₁ _
    by_cases hid : id = id'
    · subst hid
      obtain rfl : c = c₁ := Option.some.inj (hc.symm.trans hc₁)
      exact ⟨vs, by simp [hlt]⟩
    · exact ⟨c₁.items, by simp [hid, hc₁]⟩
  · intro id' c₁ hc₁ herr
    rw [List.getElem?_set] at hc₁
    split_ifs at hc₁ with hid
    · subst hid
      obtain rfl : { c with items := vs } = c₁ := Option.some.inj hc₁
      exact ⟨c, hc, herr, rfl⟩
    · exact ⟨c₁, hc₁, herr, rfl⟩
  · exact le_refl _
  · exact rfl
  · exact rfl

/-- Every step but those of the reader. -/
theorem Balanced.step {driver : Driver} {conforms : Except String (Message V) → Prop} {i : TrafficStep V}
    (h : T.Balanced) (hstep : Step driver conforms T i T') (hread : i ≠ .read) : T'.Balanced := by
  cases hstep with
  | call _ htoken => exact h.call htoken driver
  | silent => exact h.moved rfl (Int.le_add_one (le_refl _)) rfl fun _ => rfl
  | handOver _ hcall => exact h.handOver hcall
  | resume _ hcall => exact h.resume hcall
  | cancel _ _ _ _ => exact h.moved rfl (le_refl _) rfl fun _ => rfl
  | @fetch id inst _ hlt hfetch =>
    have hc : T.inst.cursors[id]? = some T.inst.cursors[id] := List.getElem?_eq_getElem hlt
    rw [Instance.maybeFetchBatch_of h.isOpen hc] at hfetch
    obtain rfl := (Prod.mk.inj hfetch).2
    by_cases hwants : T.inst.cursors[id].WantsBatch
    · unfold Cursor.fetch Instance.asks
      rw [if_pos hwants, if_pos hwants]
      exact h.request hc hwants.1 rfl rfl rfl
    · unfold Cursor.fetch Instance.asks
      rw [if_neg hwants, if_neg hwants, List.append_nil, List.set_getElem_self hlt]
      exact h
  | next _ hc _ => exact h.next hc _
  | @closeCursor id inst _ hlt hclose =>
    have hc : T.inst.cursors[id]? = some T.inst.cursors[id] := List.getElem?_eq_getElem hlt
    by_cases herr : T.inst.cursors[id].error = none
    · rw [Instance.closeCursor_of h.isOpen hc herr] at hclose
      obtain rfl := (Prod.mk.inj hclose).2
      exact h.request hc herr rfl rfl rfl
    · rw [Instance.closeCursor_done hc herr] at hclose
      obtain rfl := (Prod.mk.inj hclose).2
      exact h
  | sendRequest _ hunsent =>
    refine h.moved rfl (le_refl _) rfl ?_
    intro t
    simp only [due, hunsent, List.count_append, List.count_cons, List.count_nil]
    omega
  | answer _ howed _ _ =>
    refine h.moved rfl (le_refl _) rfl ?_
    intro t
    simp only [due, howed, List.map_append, List.map_cons, List.map_nil, List.count_append, List.count_cons,
      List.count_nil]
    omega
  | read _ _ _ => exact absurd rfl hread

/-! ### The reader -/

variable {payload : Bytes} {rest : List (ℤ × Bytes)}

/-- The traffic after the reader has taken its next frame. -/
def taken (T : Traffic V) (t : ℤ) (payload : Bytes) (rest : List (ℤ × Bytes)) (inst : Instance V)
    (failure : Option (Exn V)) : Traffic V :=
  { T with inst, incoming := rest, heard := T.heard ++ [(t, payload)], failure }

theorem due_taken (hin : T.incoming = (t, payload) :: rest) (inst : Instance V) {more : List ℤ}
    (hunsent : inst.unsent = T.inst.unsent ++ more) (failure : Option (Exn V)) (t' : ℤ) :
    (T.taken t payload rest inst failure).due t' + [t].count t' = T.due t' + more.count t' := by
  simp only [due, taken, hin, hunsent, List.map_cons, List.count_append, List.count_cons, List.count_nil]
  omega

theorem Balanced.addressee (h : T.Balanced) (hin : T.incoming = (t, payload) :: rest) :
    ∃ q phase, T.calls.lookup t = some ⟨q, phase⟩ ∧ q.token = t ∧
      ((phase = .handed ∧ T.Quiet t 1) ∨ ∃ future, phase = .waiting future ∧
        (T.Waits t q future ∨ ∃ id c, T.Streams t q id c)) := by
  have hdue : T.due t ≠ 0 := by
    simp [due, hin]
  have hstation := h.station t
  unfold Station at hstation
  cases hcall : T.calls.lookup t with
  | none =>
    rw [hcall] at hstation
    exact absurd hstation.due hdue
  | some caller =>
    obtain ⟨q, phase⟩ := caller
    rw [hcall] at hstation
    obtain ⟨htoken, hstands⟩ := hstation
    refine ⟨q, phase, rfl, htoken, ?_⟩
    cases phase with
    | sending => exact absurd hstands.due hdue
    | handed => exact .inl ⟨rfl, hstands⟩
    | waiting future =>
      rcases hstands with hwaits | hstreams | hquiet
      · exact .inr ⟨future, rfl, .inl hwaits⟩
      · exact .inr ⟨future, rfl, .inr hstreams⟩
      · exact absurd hquiet.due hdue

/-- A query turns into a cursor. -/
theorem Balanced.opening (h : T.Balanced) {q : Query V} {future : ℕ}
    (hcall : T.calls.lookup q.token = some ⟨q, .waiting future⟩) (hwaits : T.Waits q.token q future)
    {c : Cursor V} (hquery : c.query = q) (hdecoder : c.jsonDecoder = T.inst.getJsonDecoder q)
    (hcalls : T'.calls = T.calls) (hnext : T'.nextToken = T.nextToken)
    (hinst : T'.inst = { T.inst with
      cursors := T.inst.cursors ++ [c]
      cursorCache := T.inst.cursorCache.insert q.token T.inst.cursors.length
      userQueries := T.inst.userQueries.erase q.token
      futures := T'.inst.futures
      unsent := T'.inst.unsent })
    (hothers : ∀ t', t' ≠ q.token → T'.due t' = T.due t')
    (hdue : c.outstandingRequests = T'.due q.token) : T'.Balanced := by
  have hcursors : T'.inst.cursors = T.inst.cursors ++ [c] := by rw [hinst]
  have hcache : T'.inst.cursorCache = T.inst.cursorCache.insert q.token T.inst.cursors.length := by
    rw [hinst]
  have hqueries : T'.inst.userQueries = T.inst.userQueries.erase q.token := by rw [hinst]
  have hdefault : T'.inst.jsonDecoder = T.inst.jsonDecoder := by rw [hinst]
  have hfree : ∀ (id : ℕ) (c : Cursor V), T.inst.cursors[id]? = some c → c.error = none →
      c.query.token ≠ q.token := by
    intro id c hc herr heq
    have hlive := h.live id c hc herr
    rw [heq, hwaits.cache] at hlive
    cases hlive
  apply h.update q.token
  · intro t' ht
    refine ⟨by rw [hcalls], hothers t' ht, ?_, ?_, hdefault, ?_⟩
    · rw [hcache, AList.lookup_insert_ne ht]
    · rw [hqueries, AList.lookup_erase_ne ht]
    · intro id c₁ hc₁ _
      rw [hcursors, List.getElem?_append_left (List.getElem?_eq_some_iff.mp hc₁).1]
      exact ⟨c₁.items, hc₁⟩
  · unfold Station
    rw [hcalls, hcall]
    refine ⟨rfl, .inr (.inl ⟨T.inst.cursors.length, c, ?_, ?_, ?_, hquery, ?_, hdue⟩)⟩
    · rw [hqueries, AList.lookup_erase]
    · rw [hcache, AList.lookup_insert]
    · rw [hcursors, List.getElem?_concat_length]
    · unfold Instance.getJsonDecoder at *
      rw [hdefault, hdecoder]
  · intro id c₁ hc₁ herr
    rw [hcursors, List.getElem?_append] at hc₁
    rw [hcache]
    split_ifs at hc₁ with hlt
    · rw [AList.lookup_insert_ne (hfree id c₁ hc₁ herr)]
      exact h.live id c₁ hc₁ herr
    · obtain ⟨hid, hnew⟩ := List.getElem?_eq_some_iff.mp hc₁
      obtain rfl : T.inst.cursors.length = id := by
        simp at hid
        omega
      have hsame : c₁ = c := by simpa using hnew.symm
      rw [hsame, hquery, AList.lookup_insert]
  · rw [hcalls, hnext]
    exact h.tokens
  · rw [hinst]
  · rw [hinst]

/-- The books after the first response to a query. -/
theorem Balanced.settled (h : T.Balanced) (hin : T.incoming = (t, payload) :: rest) {q : Query V}
    {future : ℕ} (hcall : T.calls.lookup t = some ⟨q, .waiting future⟩) (htoken : q.token = t)
    (hwaits : T.Waits t q future) (res : Response V) (state : FutureState V) :
    (T.taken t payload rest (T.inst.settled q future res state) none).Balanced := by
  subst htoken
  by_cases hbatch : res.IsBatch
  · have hsettled : T.inst.settled q future res state = { T.inst.opened q res with
        futures := T.inst.futures.set future state
        userQueries := T.inst.userQueries.erase q.token } := by
      rw [Instance.settled, Instance.arranged, if_pos hbatch]
    have hunsent : (T.inst.settled q future res state).unsent = T.inst.unsent ++ [q.token] := by
      rw [hsettled]
      exact rfl
    have hopened := Cursor.opened_batch hbatch q (T.inst.getJsonDecoder q)
    have hdue := due_taken hin _ hunsent none
    rw [hsettled] at hdue ⊢
    refine h.opening hcall hwaits (c := .opened q (T.inst.getJsonDecoder q) res) ?_ ?_ rfl rfl rfl ?_ ?_
    · rw [hopened]
      exact rfl
    · rw [hopened]
      exact rfl
    · intro t' _
      simpa using hdue t'
    · have hone := hdue q.token
      rw [hwaits.due] at hone
      rw [hopened]
      change (1 : ℤ) = _
      simp only [taken] at hone ⊢
      omega
  · have hsettled : T.inst.settled q future res state = { T.inst with
        futures := T.inst.futures.set future state
        userQueries := T.inst.userQueries.erase q.token } := by
      rw [Instance.settled, Instance.arranged, if_neg hbatch]
    have hunsent : (T.inst.settled q future res state).unsent = T.inst.unsent ++ [] := by
      rw [hsettled, List.append_nil]
    have hdue := due_taken hin _ hunsent none
    rw [hsettled] at hdue ⊢
    apply h.update q.token
    · intro t' ht
      refine ⟨rfl, ?_, rfl, AList.lookup_erase_ne ht, rfl, fun id c hc _ => ⟨c.items, hc⟩⟩
      have hsame := hdue t'
      simp [Ne.symm ht] at hsame
      exact hsame
    · unfold Station
      simp only [taken, hcall]
      refine ⟨trivial, .inr (.inr ⟨?_, hwaits.cache, AList.lookup_erase _ _⟩)⟩
      have hone := hdue q.token
      rw [hwaits.due] at hone
      simp [taken] at hone
      exact hone
    · exact h.live
    · exact h.tokens
    · exact rfl
    · exact rfl

/-- The books after a response to a cursor. -/
theorem Balanced.extended (h : T.Balanced) (hin : T.incoming = (t, payload) :: rest) {q : Query V}
    {future id : ℕ} {c c' : Cursor V} (hcall : T.calls.lookup t = some ⟨q, .waiting future⟩)
    (htoken : q.token = t) (hstreams : T.Streams t q id c) {res : Response V}
    (hstore : c.answered.fetch.store res = .ok c') :
    (T.taken t payload rest (T.inst.extended id c c') none).Balanced := by
  obtain ⟨items, threshold, error, hshape⟩ := Cursor.store_shape hstore
  have hcursor : c.query.token = t := by rw [hstreams.query, htoken]
  have hfetch : c.answered.fetch.query = c.query ∧ c.answered.fetch.jsonDecoder = c.jsonDecoder ∧
      c.answered.fetch.error = c.error ∧ c.answered.fetch.outstandingRequests =
        c.outstandingRequests - 1 + ((Instance.asks c.answered).count t : ℤ) := by
    unfold Cursor.fetch Instance.asks
    by_cases hwants : c.answered.WantsBatch
    · rw [if_pos hwants, if_pos hwants]
      refine ⟨rfl, rfl, rfl, ?_⟩
      simp [Cursor.answered, Cursor.request, hcursor]
    · rw [if_neg hwants, if_neg hwants]
      refine ⟨rfl, rfl, rfl, ?_⟩
      simp [Cursor.answered]
  have hcount : c'.outstandingRequests =
      c.outstandingRequests - 1 + ((Instance.asks c.answered).count t : ℤ) := by
    rw [hshape]
    exact hfetch.2.2.2
  have hunsent : (T.inst.extended id c c').unsent = T.inst.unsent ++ Instance.asks c.answered := rfl
  have hdue := due_taken hin _ hunsent none
  refine h.cursor hcall htoken hstreams ?_ ?_ ?_ rfl rfl rfl ?_ ?_ ?_
  · rw [hshape]
    exact hfetch.1
  · rw [hshape]
    exact hfetch.2.1
  · intro herr
    by_contra hfailed
    rw [← hfetch.2.2.1] at hfailed
    exact hfailed ((Cursor.store_failed hstore hfailed).symm.trans herr)
  · by_cases hdone : c'.outstandingRequests = 0 ∧ c'.error ≠ none
    · right
      rw [← hcursor]
      exact ⟨if_pos hdone, hdone.2, hdone.1⟩
    · left
      exact if_neg hdone
  · intro t' ht
    have hsame := hdue t'
    have hasks : (Instance.asks c.answered).count t' = 0 := by
      unfold Instance.asks
      split
      · simp [Cursor.answered, hcursor, Ne.symm ht]
      · rfl
    rw [hasks] at hsame
    simp [Ne.symm ht] at hsame
    exact hsame
  · have hone := hdue t
    have hout := hstreams.outstanding
    simp only [List.count_singleton_self] at hone
    apply hcount.trans
    omega

theorem Streams.cached {q : Query V} {id : ℕ} {c : Cursor V} (hstreams : T.Streams t q id c)
    (htoken : q.token = t) : c.query.token ∈ T.inst.cursorCache := by
  rw [hstreams.query, htoken, ← AList.lookup_isSome, hstreams.cache]
  rfl

/-- One turn of the reader. Only a call that has not run on since its request was sent can be
missing from the tables. -/
theorem Balanced.read {driver : Driver} (h : T.Balanced) (hin : T.incoming = (t, payload) :: rest) :
    (∃ q, T.calls.lookup t = some ⟨q, .handed⟩ ∧ Instance.handleFrame driver t payload T.inst =
      (.error (.driver "Unexpected response received."), T.inst)) ∨
    (∃ q future, T.calls.lookup t = some ⟨q, .waiting future⟩ ∧
      wp (Instance.handleFrame driver t payload) (fun o inst =>
        (o = .ok () ∧ (T.taken t payload rest inst none).Balanced) ∨
        ∃ e, o = .error e ∧ e ≠ .driver "Unexpected response received.") T.inst) := by
  obtain ⟨q, phase, hcall, htoken, hstands⟩ := h.addressee hin
  rcases hstands with ⟨rfl, hquiet⟩ | ⟨future, rfl, hwaits | ⟨id, c, hstreams⟩⟩
  · left
    exact ⟨q, hcall, Instance.handleFrame_stray hquiet.cache hquiet.queries h.closing⟩
  · right
    refine ⟨q, future, hcall, ?_⟩
    subst htoken
    rcases Instance.handleFrame_query h.isOpen hwaits.cache hwaits.queries with
      ⟨m, state, -, -, hok⟩ | herror
    · rw [wp_of_eq hok]
      exact .inl ⟨rfl, h.settled hin hcall rfl hwaits _ _⟩
    · exact herror.mono fun _ _ he => .inr he
  · right
    refine ⟨q, future, hcall, ?_⟩
    have hturn : Instance.handleFrame driver t payload T.inst = Instance.extend id payload T.inst :=
      Instance.handleFrame_cursor hstreams.cache
    rcases Instance.extend_cases h.isOpen hstreams.cursor (hstreams.cached htoken) with
      ⟨m, c', -, hstore, hok⟩ | herror
    · rw [wp_of_eq (hturn.trans hok)]
      exact .inl ⟨rfl, h.extended hin hcall htoken hstreams hstore⟩
    · rw [wp_of_eq hturn]
      exact .inr herror

theorem Fresh.balanced (h : T.Fresh) : T.Balanced where
  station := by
    intro t
    have hquiet : T.Quiet t 0 := by
      refine ⟨?_, ?_, ?_⟩
      · simp [due, h.unsent, h.owed, h.incoming]
      · rw [h.cursorCache]
        exact AList.lookup_empty t
      · rw [h.userQueries]
        exact AList.lookup_empty t
    unfold Station
    rw [h.calls, AList.lookup_empty]
    exact hquiet
  live := by
    intro id c hc
    simp [h.cursors] at hc
  tokens := by
    intro t ht
    rw [h.calls, AList.lookup_empty] at ht
    exact absurd rfl ht
  isOpen := h.isOpen
  closing := h.closing

/-- As long as the reader has raised nothing, the books are right. -/
theorem balanced_of_reachable {driver : Driver} {conforms : Except String (Message V) → Prop}
    (h : (machine driver conforms).Reachable T) : T.failure = none → T.Balanced := by
  apply h.invariant
  · exact fun _ hfresh _ => hfresh.balanced
  · intro T i T' _ hbalanced _ hstep hnone
    have hsteps : T.failure = none := by cases hstep <;> assumption
    by_cases hread : i = .read
    · subst hread
      cases hstep with
      | read _ hin hframe =>
        rcases (hbalanced hsteps).read hin with ⟨q, -, hstray⟩ | ⟨q, future, -, hwp⟩
        · rw [hstray] at hframe
          obtain rfl := (Prod.mk.inj hframe).1
          cases hnone
        · rw [wp_of_eq hframe] at hwp
          rcases hwp with ⟨rfl, hok⟩ | ⟨e, rfl, -⟩
          · exact hok
          · cases hnone
    · exact (hbalanced hsteps).step hstep hread

def lookupQuery : Query ℕ := ⟨.start, 1, none, .ok [], none, false⟩

/-- A new connection, on which every payload decodes to that answer. -/
def started : Traffic ℕ :=
  { inst := ⟨⟨fun _ => [], nil_length_lt, []⟩, fun _ => .ok ⟨.successAtom, [7], none, none, none⟩,
      true, false, ∅, ∅, [], [], []⟩
    nextToken := 1, calls := ∅, owed := [], incoming := [], heard := [], cancelled := []
    failure := none }

theorem started_fresh : started.Fresh := by
  constructor <;> exact rfl

end Traffic
end RethinkDB.Async
