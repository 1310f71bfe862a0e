import RethinkDB.Async.Traffic

/-! The reader greenlet of the gevent driver. It shares `ConnectionInstance` with the other drivers, but
its cursors ask for their next batch from within the reader, which then waits in `run_query` while other
greenlets run. -/
namespace RethinkDB.Gevent
open RethinkDB.Lib Net Prog Async

variable {V : Type}

/-- Where `_reader` stands: at `recvall`, or sending the `CONTINUE` of a cursor in the middle of
`_extend` or of `GeventCursor.__init__`. -/
inductive Reader (V : Type) where
  | receiving
  | extending (id : ℕ) (token : ℤ) (resBuf : Bytes)
  | opening (id : ℕ) (query : Query V) (future : ℕ) (res : Response V)

/-- `_maybe_fetch_batch` up to its `sendall`, and whether it comes to that. -/
def maybeFetchBatch (id : ℕ) : Act V Bool := do
  let c ← Instance.cursor id
  if c.WantsBatch then
    Instance.modifyCursor id Cursor.request
    if ← read Instance.isOpen then return true
    else throw (.driver "Connection is closed.")
  else return false

/-- `AsyncResult.set` and `set_exception`, which write over what is there. -/
def setResult (future : ℕ) (state : FutureState V) : Act V Unit :=
  modify fun s => { s with futures := s.futures.set future state }

/-- `del self._user_queries[token]`. -/
def forget (token : ℤ) : Act V Unit :=
  modify fun s => { s with userQueries := s.userQueries.erase token }

/-- `_extend` once the request is out of the way. -/
def extendRest (id : ℕ) (resBuf : Bytes) : Act V (Reader V) := do
  let c ← Instance.cursor id
  let res ← ofExcept (Response.ofJson c.query.token resBuf c.jsonDecoder)
  Instance.extendInternal id res
  return .receiving

/-- `GeventCursor._extend`. -/
def extend (id : ℕ) (resBuf : Bytes) : Act V (Reader V) := do
  Instance.modifyCursor id Cursor.answered
  if ← maybeFetchBatch id then
    let c ← Instance.cursor id
    return .extending id c.query.token resBuf
  else extendRest id resBuf

/-- The branch of a batch once the request of the new cursor is out of the way. -/
def openRest (id : ℕ) (query : Query V) (future : ℕ) (res : Response V) : Act V (Reader V) := do
  Instance.extendInternal id res
  setResult future (.result (maybeProfile (.cursor id) res))
  forget query.token
  return .receiving

/-- The branch of a batch. -/
def openCursor (query : Query V) (future : ℕ) (res : Response V) : Act V (Reader V) := do
  let id ← read fun s => s.cursors.length
  modify (Instance.openCursor query)
  if ← maybeFetchBatch id then return .opening id query future res
  else openRest id query future res

/-- The other branches: the result is set, then the query leaves the table. -/
def settle (query : Query V) (future : ℕ) (state : FutureState V) : Act V (Reader V) := do
  setResult future state
  forget query.token
  return .receiving

/-- What `_reader` makes of the response to a query. There is no branch for `SERVER_INFO`. -/
def handleResponse (query : Query V) (future : ℕ) (res : Response V) : Act V (Reader V) :=
  match res.type with
  | .successAtom => do
    let v ← ofExcept (Driver.firstDatum res)
    settle query future (.result (maybeProfile (.value v) res))
  | .successSequence | .successPartial => openCursor query future res
  | .waitComplete => settle query future (.result .none)
  | _ => do
    let e ← ofExcept (res.makeError query)
    settle query future (.exception e)

/-- One turn of `_reader`, from its second `recvall` on. -/
def handleFrame (token : ℤ) (buf : Bytes) : Act V (Reader V) := do
  match ← read fun s => s.cursorCache.lookup token with
  | some id => extend id buf
  | none => match ← read fun s => s.userQueries.lookup token with
    | some (query, future) => do
      let decoder ← read fun s => s.getJsonDecoder query
      let res ← ofExcept (Response.ofJson token buf decoder)
      handleResponse query future res
    | none =>
      if ← read Instance.closing then return .receiving
      else throw (.driver "Unexpected response received.")

/-- The turn it is in goes on. -/
def Reader.rest : Reader V → Act V (Reader V)
  | .receiving => pure .receiving
  | .extending id _ resBuf => extendRest id resBuf
  | .opening id query future res => openRest id query future res

def Reader.sending : Reader V → Option ℤ
  | .receiving => none
  | .extending _ token _ => some token
  | .opening _ query _ _ => some query.token

/-- No greenlet but the reader knows of the cursor. -/
def Reader.Hides (id : ℕ) : Reader V → Prop
  | .opening id' _ _ _ => id = id'
  | _ => False

/-! ### What each of them does -/

variable {s : Instance V} {id : ℕ} {c : Cursor V}

theorem maybeFetchBatch_of (hopen : s.isOpen = true) (hc : s.cursors[id]? = some c) :
    maybeFetchBatch id s =
      (.ok (decide c.WantsBatch), { s with cursors := s.cursors.set id c.fetch }) := by
  have hsame : s.cursors.set id c = s.cursors := by
    obtain ⟨hlt, rfl⟩ := List.getElem?_eq_some_iff.mp hc
    exact List.set_getElem_self hlt
  apply eq_of_wp
  unfold maybeFetchBatch
  rw [wp_bind_of_eq (Instance.cursor_of hc)]
  by_cases hwants : c.WantsBatch
  · rw [if_pos hwants, wp_bind_of_eq (Instance.modifyCursor_of hc _), wp_bind, wp_read, bindPost_ok]
    simp only [hopen, if_true, wp_pure, Cursor.fetch, hwants, decide_true]
    exact ⟨trivial, trivial⟩
  · rw [if_neg hwants, wp_pure]
    simp [Cursor.fetch, hwants, hsame]

/-- `_extend` of a cursor that asks for more first. -/
theorem extend_waits (hopen : s.isOpen = true) (hc : s.cursors[id]? = some c)
    (hwants : c.answered.WantsBatch) (buf : Bytes) :
    extend id buf s = (.ok (.extending id c.query.token buf),
      { s with cursors := s.cursors.set id c.answered.request }) := by
  have hlt : id < s.cursors.length := (List.getElem?_eq_some_iff.mp hc).1
  let s₁ : Instance V := { s with cursors := s.cursors.set id c.answered }
  let s₂ : Instance V := { s with cursors := s.cursors.set id c.answered.request }
  have hc₁ : s₁.cursors[id]? = some c.answered := by simp [s₁, hlt]
  have hc₂ : s₂.cursors[id]? = some c.answered.request := by simp [s₂, hlt]
  have hopen₁ : s₁.isOpen = true := hopen
  have hfetch : maybeFetchBatch id s₁ = (.ok true, s₂) := by
    rw [maybeFetchBatch_of hopen₁ hc₁, Cursor.fetch, if_pos hwants]
    simp [hwants, s₁, s₂]
  apply eq_of_wp
  unfold extend
  rw [wp_bind_of_eq (Instance.modifyCursor_of hc _), wp_bind_of_eq hfetch, if_pos rfl, wp_bind_of_eq (Instance.cursor_of hc₂), wp_pure]
  exact ⟨rfl, rfl⟩

theorem extendRest_of {c' : Cursor V} {buf : Bytes} {m : Message V} (hc : s.cursors[id]? = some c)
    (hcached : c.query.token ∈ s.cursorCache) (hdecode : c.jsonDecoder buf = .ok m)
    (hstore : c.store { m with token := c.query.token } = .ok c') :
    extendRest id buf s = (.ok .receiving, { s with
      cursors := s.cursors.set id c'
      cursorCache := if c'.outstandingRequests = 0 ∧ c'.error ≠ none then s.cursorCache.erase c.query.token
        else s.cursorCache }) := by
  have hres : Response.ofJson c.query.token buf c.jsonDecoder = .ok { m with token := c.query.token } := by
    rw [Response.ofJson, hdecode]
  apply eq_of_wp
  unfold extendRest
  rw [wp_bind_of_eq (Instance.cursor_of hc), wp_ofExcept_bind_ok hres,
    wp_bind_of_eq (Instance.extendInternal_of hc hcached hstore), wp_pure]
  exact ⟨rfl, rfl⟩

/-- `_extend` of a cursor that does not. -/
theorem extend_of {c' : Cursor V} {buf : Bytes} {m : Message V} (hopen : s.isOpen = true)
    (hc : s.cursors[id]? = some c) (hcached : c.query.token ∈ s.cursorCache)
    (hwants : ¬c.answered.WantsBatch) (hdecode : c.jsonDecoder buf = .ok m)
    (hstore : c.answered.fetch.store { m with token := c.query.token } = .ok c') :
    extend id buf s = (.ok .receiving, s.extended id c c') := by
  have hlt : id < s.cursors.length := (List.getElem?_eq_some_iff.mp hc).1
  have hfetched : c.answered.fetch = c.answered := if_neg hwants
  let s₁ : Instance V := { s with cursors := s.cursors.set id c.answered }
  have hc₁ : s₁.cursors[id]? = some c.answered := by simp [s₁, hlt]
  have hopen₁ : s₁.isOpen = true := hopen
  have hcached₁ : c.answered.query.token ∈ s₁.cursorCache := hcached
  have hfetch : maybeFetchBatch id s₁ = (.ok false, s₁) := by
    rw [maybeFetchBatch_of hopen₁ hc₁, hfetched]
    simp [hwants, s₁]
  have hasks : Instance.asks c.answered = [] := if_neg hwants
  rw [hfetched] at hstore
  apply eq_of_wp
  unfold extend
  rw [wp_bind_of_eq (Instance.modifyCursor_of hc _), wp_bind_of_eq hfetch, if_neg Bool.false_ne_true, wp_of_eq (extendRest_of hc₁ hcached₁ hdecode hstore)]
  simp only [s₁, Instance.extended, hasks, List.set_set, List.append_nil]
  exact ⟨trivial, rfl⟩

theorem openRest_of {query : Query V} {future : ℕ} {res : Response V} {c' : Cursor V}
    (hc : s.cursors[id]? = some c) (hcached : res.token ∈ s.cursorCache) (hstore : c.store res = .ok c') :
    openRest id query future res s = (.ok .receiving, { s with
      cursors := s.cursors.set id c'
      cursorCache := if c'.outstandingRequests = 0 ∧ c'.error ≠ none then s.cursorCache.erase res.token
        else s.cursorCache
      futures := s.futures.set future (.result (maybeProfile (.cursor id) res))
      userQueries := s.userQueries.erase query.token }) := by
  apply eq_of_wp
  unfold openRest setResult forget
  rw [wp_bind_of_eq (Instance.extendInternal_of hc hcached hstore), wp_bind, wp_modify, bindPost_ok,
    wp_bind, wp_modify, bindPost_ok, wp_pure]
  exact ⟨rfl, rfl⟩

/-- The cursor a query opens, before it has its first response. -/
def unfilled (s : Instance V) (query : Query V) : Cursor V :=
  ⟨query, [], 1, 1, none, s.getJsonDecoder query⟩

theorem openCursor_waits (hopen : s.isOpen = true) (query : Query V) (future : ℕ) (res : Response V) :
    openCursor query future res s = (.ok (.opening s.cursors.length query future res), { s with
      cursors := s.cursors ++ [unfilled s query]
      cursorCache := s.cursorCache.insert query.token s.cursors.length }) := by
  let c₀ : Cursor V := ⟨query, [], 0, 1, none, s.getJsonDecoder query⟩
  have hwants : c₀.WantsBatch := ⟨rfl, Nat.zero_lt_one, rfl⟩
  have hopen₁ : (Instance.openCursor query s).isOpen = true := hopen
  have hc₀ : (Instance.openCursor query s).cursors[s.cursors.length]? = some c₀ := by
    simp [Instance.openCursor, c₀]
  have hfetch := maybeFetchBatch_of hopen₁ hc₀
  rw [Cursor.fetch, if_pos hwants, decide_eq_true hwants] at hfetch
  have hmodify : (modify (Instance.openCursor query) : Act V Unit) s =
      (.ok (), Instance.openCursor query s) := rfl
  apply eq_of_wp
  unfold openCursor
  rw [wp_bind, wp_read, bindPost_ok, wp_bind_of_eq hmodify, wp_bind_of_eq hfetch, if_pos rfl, wp_pure]
  constructor
  · exact rfl
  · simp [Instance.openCursor, unfilled, Cursor.request, c₀]

theorem settle_of (query : Query V) (future : ℕ) (state : FutureState V) :
    settle query future state s = (.ok .receiving, { s with
      futures := s.futures.set future state
      userQueries := s.userQueries.erase query.token }) := rfl

/-- A frame for a cursor goes to the cursor. -/
theorem handleFrame_cursor {token : ℤ} {buf : Bytes} (h : s.cursorCache.lookup token = some id) :
    handleFrame token buf s = extend id buf s := by
  apply eq_of_wp
  unfold handleFrame
  rw [wp_bind, wp_read, bindPost_ok, h]
  exact ⟨rfl, rfl⟩

/-- A frame for a query. -/
theorem handleFrame_query {query : Query V} {future : ℕ} {buf : Bytes} {m : Message V}
    (hcache : s.cursorCache.lookup query.token = none)
    (hqueries : s.userQueries.lookup query.token = some (query, future))
    (hdecode : s.getJsonDecoder query buf = .ok m) :
    handleFrame query.token buf s = handleResponse query future { m with token := query.token } s := by
  have hres : Response.ofJson query.token buf (s.getJsonDecoder query) =
      .ok { m with token := query.token } := by rw [Response.ofJson, hdecode]
  apply eq_of_wp
  unfold handleFrame
  rw [wp_bind, wp_read, bindPost_ok, hcache]
  dsimp only
  rw [wp_bind, wp_read, bindPost_ok, hqueries]
  dsimp only
  rw [wp_bind, wp_read, bindPost_ok, wp_ofExcept_bind_ok hres]
  exact ⟨rfl, rfl⟩

/-- Where there is a branch for it, a response says the same as to the other drivers. -/
theorem handleResponse_settles {query : Query V} {future : ℕ} {res : Response V} {state : FutureState V}
    (hbatch : ¬res.IsBatch) (hinfo : res.type ≠ .serverInfo)
    (hverdict : Instance.verdict query s.cursors.length res = .ok state) :
    handleResponse query future res s = (.ok .receiving, s.settled query future res state) := by
  have hplain : s.arranged query res = s := if_neg hbatch
  have hsettle : settle query future state s = (.ok .receiving, s.settled query future res state) := by
    rw [settle_of, Instance.settled, hplain]
  apply eq_of_wp
  unfold Instance.verdict at hverdict
  unfold handleResponse
  cases htype : res.type with
  | successAtom =>
    rw [htype] at hverdict
    obtain ⟨v, hdatum, rfl⟩ := map_eq_ok.mp hverdict
    dsimp only
    rw [wp_ofExcept_bind_ok hdatum, wp_of_eq hsettle]
    exact ⟨rfl, rfl⟩
  | successSequence | successPartial => exact absurd (by simp [Response.IsBatch, htype]) hbatch
  | waitComplete =>
    rw [htype] at hverdict
    cases hverdict
    rw [wp_of_eq hsettle]
    exact ⟨rfl, rfl⟩
  | serverInfo => exact absurd htype hinfo
  | clientError | compileError | runtimeError | other n =>
    rw [htype] at hverdict
    obtain ⟨e, hmade, rfl⟩ := map_eq_ok.mp hverdict
    dsimp only
    rw [wp_ofExcept_bind_ok hmade, wp_of_eq hsettle]
    exact ⟨rfl, rfl⟩

theorem handleResponse_batch {query : Query V} {future : ℕ} {res : Response V} (hbatch : res.IsBatch) :
    handleResponse query future res s = openCursor query future res s := by
  unfold handleResponse
  rcases hbatch with htype | htype
  · rw [htype]
  · rw [htype]

/-- And a `SERVER_INFO` becomes an exception. -/
theorem handleResponse_serverInfo {query : Query V} {future : ℕ} {res : Response V}
    (hinfo : res.type = .serverInfo) :
    handleResponse query future res s =
      settle query future (.exception (.unknownResponseType .serverInfo)) s := by
  have hmade : res.makeError query = .ok (.unknownResponseType .serverInfo) := by
    rw [Response.makeError, hinfo]
  apply eq_of_wp
  unfold handleResponse
  rw [hinfo]
  dsimp only
  rw [wp_ofExcept_bind_ok hmade]
  exact ⟨rfl, rfl⟩

end RethinkDB.Gevent
