import RethinkDB.Net.Fetch

/-! `ConnectionInstance` as the asyncio, Trio and Tornado drivers share it: the futures of queries
under way, the cursors, what the reader does with one frame, and what `close` does to both. -/
namespace RethinkDB.Async
open RethinkDB.Lib Net Prog

variable {V : Type}

inductive Driver where
  | asyncio | trio | tornado
  deriving Repr, DecidableEq

/-- `TrioFuture` lets itself be resolved again; the other futures raise `InvalidStateError`. -/
def Driver.Strict (driver : Driver) : Prop := driver ≠ .trio

instance (driver : Driver) : Decidable driver.Strict := by
  unfold Driver.Strict
  infer_instance

inductive FutureState (V : Type) where
  | pending
  | result (reply : Reply V)
  | exception (e : Exn V)
  | cancelled
  deriving Repr, DecidableEq

/-- Futures and cursors are named by their position on a heap. `isOpen` is what `check_open` finds,
`unsent` the tokens of `CONTINUE` and `STOP` requests left to a task of their own. -/
structure Instance (V : Type) where
  numbering : Numbering
  jsonDecoder : Decoder V
  isOpen : Bool
  closing : Bool
  userQueries : AList (fun _ : ℤ => Query V × ℕ)
  cursorCache : AList (fun _ : ℤ => ℕ)
  futures : List (FutureState V)
  cursors : List (Cursor V)
  unsent : List ℤ

/-- What runs without giving up control. -/
abbrev Act (V α : Type) := Prog (Instance V) (Exn V) α

namespace Instance

def getJsonDecoder (s : Instance V) (query : Query V) : Decoder V :=
  query.jsonDecoder.getD s.jsonDecoder

def cursor (id : ℕ) : Act V (Cursor V) := fun s =>
  match s.cursors[id]? with
  | some c => (.ok c, s)
  | none => (.error .attribute, s)

def modifyCursor (id : ℕ) (f : Cursor V → Cursor V) : Act V Unit :=
  modify fun s => { s with cursors := s.cursors.modify id f }

/-- `_maybe_fetch_batch`: `_continue` checks at once that the connection is open, and sends later. -/
def maybeFetchBatch (id : ℕ) : Act V Unit := do
  let c ← cursor id
  if c.WantsBatch then
    modifyCursor id Cursor.request
    if ← read Instance.isOpen then
      modify fun s => { s with unsent := s.unsent ++ [c.query.token] }
    else throw (.driver "Connection is closed.")

/-- `del self.conn._cursor_cache[token]`. -/
def uncache (token : ℤ) : Act V Unit := fun s =>
  if token ∈ s.cursorCache then (.ok (), { s with cursorCache := s.cursorCache.erase token })
  else (.error .key, s)

/-- `_extend_internal` up to the cache. -/
def storeResponse (id : ℕ) (res : Response V) : Act V Unit := do
  let c ← cursor id
  match c.store res with
  | .ok c => modifyCursor id fun _ => c
  | .error e => do
    modifyCursor id fun c => { c with threshold := res.data.length }
    throw e

/-- `Cursor._extend_internal`. -/
def extendInternal (id : ℕ) (res : Response V) : Act V Unit := do
  storeResponse id res
  let c ← cursor id
  if c.outstandingRequests = 0 ∧ c.error ≠ none then uncache res.token

/-- `_extend` of the three cursors; the event that wakes up its readers is left out. -/
def extend (id : ℕ) (resBuf : Bytes) : Act V Unit := do
  modifyCursor id Cursor.answered
  maybeFetchBatch id
  let c ← cursor id
  let res ← ofExcept (Response.ofJson c.query.token resBuf c.jsonDecoder)
  extendInternal id res

/-- `Cursor._error`. -/
def cursorError (message : String) (id : ℕ) : Act V Unit := do
  let c ← cursor id
  if c.error = none then
    modifyCursor id (Cursor.fail (.runtime message c.query.term))
    extend id (← read fun s => s.numbering.dummyResponse)

/-- `close` of the three cursors; `_stop` sends later. -/
def closeCursor (id : ℕ) : Act V Unit := do
  let c ← cursor id
  if c.error = none then
    modifyCursor id (Cursor.fail .cursorEmpty)
    if ← read Instance.isOpen then
      modifyCursor id Cursor.request
      modify fun s => { s with unsent := s.unsent ++ [c.query.token] }

/-- The assignments of `Cursor.__init__`. -/
def openCursor (query : Query V) (s : Instance V) : Instance V :=
  { s with
    cursors := s.cursors ++ [⟨query, [], 0, 1, none, s.getJsonDecoder query⟩]
    cursorCache := s.cursorCache.insert query.token s.cursors.length }

/-- `Cursor.__init__`. -/
def newCursor (query : Query V) (first : Response V) : Act V ℕ := do
  let id ← read fun s => s.cursors.length
  modify (openCursor query)
  maybeFetchBatch id
  extendInternal id first
  return id

/-- `set_result` and `set_exception` of a future. -/
def resolve (driver : Driver) (future : ℕ) (state : FutureState V) : Act V Unit := fun s =>
  match s.futures[future]? with
  | some .pending => (.ok (), { s with futures := s.futures.set future state })
  | _ =>
    if driver.Strict then (.error (.foreign "invalid state"), s)
    else (.ok (), { s with futures := s.futures.set future state })

/-- What the reader makes of the response to a query that waits for it. -/
def settle (driver : Driver) (query : Query V) (future : ℕ) (res : Response V) : Act V Unit :=
  match res.type with
  | .successAtom => do
    let v ← ofExcept (Driver.firstDatum res)
    resolve driver future (.result (maybeProfile (.value v) res))
  | .successSequence | .successPartial => do
    let id ← newCursor query res
    resolve driver future (.result (maybeProfile (.cursor id) res))
  | .waitComplete => resolve driver future (.result .none)
  | .serverInfo => do
    let v ← ofExcept (Driver.firstDatum res)
    resolve driver future (.result (.value v))
  | _ => do
    let e ← ofExcept (res.makeError query)
    resolve driver future (.exception e)

/-- One turn of the reader, from its second `read` on. -/
def handleFrame (driver : Driver) (token : ℤ) (buf : Bytes) : Act V Unit := do
  match ← read fun s => s.cursorCache.lookup token with
  | some id => extend id buf
  | none => match ← read fun s => s.userQueries.lookup token with
    | some (query, future) => do
      let decoder ← read fun s => s.getJsonDecoder query
      let res ← ofExcept (Response.ofJson token buf decoder)
      settle driver query future res
      -- until here the query stays in the table, in case of an exception
      modify fun s => { s with userQueries := s.userQueries.erase token }
    | none =>
      if ← read Instance.closing then pure ()
      else throw (.driver "Unexpected response received.")

/-- The lines of `run_query` after the request is written: the future and its place in the table. -/
def register (query : Query V) (s : Instance V) : Instance V :=
  { s with
    futures := s.futures ++ [.pending]
    userQueries := s.userQueries.insert query.token (query, s.futures.length) }

/-- `if not future.done(): future.set_exception(..)`. -/
def failFuture (e : Exn V) (futures : List (FutureState V)) (future : ℕ) : List (FutureState V) :=
  match futures[future]? with
  | some .pending => futures.set future (.exception e)
  | _ => futures

/-- `close` up to the first place where it waits, in the asyncio and the Trio driver. -/
def shut (exception : Option String) : Act V Unit := do
  let message := match exception with
    | some text => s!"Connection is closed ({text})."
    | none => "Connection is closed."
  modify fun s => { s with closing := true, isOpen := false }
  forEach (cursorError message) (← read fun s => (s.cursorCache.entries.map Sigma.snd).reverse)
  modify fun s =>
    { s with
      futures := (s.userQueries.entries.map fun e => e.2.2).foldl (failFuture (.driver message)) s.futures
      userQueries := ∅
      cursorCache := ∅ }

/-! ### What each of them does -/

variable {s : Instance V} {id : ℕ} {c : Cursor V}

theorem modifyCursor_of (hc : s.cursors[id]? = some c) (f : Cursor V → Cursor V) :
    modifyCursor id f s = (.ok (), { s with cursors := s.cursors.set id (f c) }) := by
  change (Outcome.ok (), { s with cursors := s.cursors.modify id f }) = _
  rw [modify_eq_set hc]

theorem cursor_of (hc : s.cursors[id]? = some c) : cursor id s = (.ok c, s) := by
  unfold cursor
  rw [hc]

/-- The token of the request that `_maybe_fetch_batch` makes, when it makes one. -/
def asks (c : Cursor V) : List ℤ := if c.WantsBatch then [c.query.token] else []

theorem maybeFetchBatch_of (hopen : s.isOpen = true) (hc : s.cursors[id]? = some c) :
    maybeFetchBatch id s =
      (.ok (), { s with cursors := s.cursors.set id c.fetch, unsent := s.unsent ++ asks c }) := by
  have hsame : s.cursors.set id c = s.cursors := by
    obtain ⟨hlt, rfl⟩ := List.getElem?_eq_some_iff.mp hc
    exact List.set_getElem_self hlt
  apply eq_of_wp
  unfold maybeFetchBatch
  rw [wp_bind_of_eq (cursor_of hc)]
  by_cases hwants : c.WantsBatch
  · rw [if_pos hwants, wp_bind_of_eq (modifyCursor_of hc _), wp_bind, wp_read, bindPost_ok]
    simp only [hopen, if_true, wp_modify, Cursor.fetch, asks, hwants]
    exact ⟨trivial, trivial⟩
  · rw [if_neg hwants, wp_pure]
    simp [Cursor.fetch, asks, hwants, hsame]

theorem uncache_of {token : ℤ} (h : token ∈ s.cursorCache) :
    uncache token s = (.ok (), { s with cursorCache := s.cursorCache.erase token }) := by
  unfold uncache
  rw [if_pos h]

theorem storeResponse_of {c' : Cursor V} {res : Response V} (hc : s.cursors[id]? = some c)
    (hstore : c.store res = .ok c') :
    storeResponse id res s = (.ok (), { s with cursors := s.cursors.set id c' }) := by
  apply eq_of_wp
  unfold storeResponse
  rw [wp_bind_of_eq (cursor_of hc)]
  simp only [hstore]
  rw [wp_of_eq (modifyCursor_of hc _)]
  exact ⟨rfl, rfl⟩

/-- `_extend_internal` when the response is one the cursor can store. -/
theorem extendInternal_of {c' : Cursor V} {res : Response V} (hc : s.cursors[id]? = some c)
    (hcached : res.token ∈ s.cursorCache) (hstore : c.store res = .ok c') :
    extendInternal id res s = (.ok (), { s with
      cursors := s.cursors.set id c'
      cursorCache := if c'.outstandingRequests = 0 ∧ c'.error ≠ none then s.cursorCache.erase res.token
        else s.cursorCache }) := by
  have hlt : id < s.cursors.length := (List.getElem?_eq_some_iff.mp hc).1
  have hc' : ({ s with cursors := s.cursors.set id c' } : Instance V).cursors[id]? = some c' := by
    simp [hlt]
  have hcached' : res.token ∈ ({ s with cursors := s.cursors.set id c' } : Instance V).cursorCache :=
    hcached
  apply eq_of_wp
  unfold extendInternal
  rw [wp_bind_of_eq (storeResponse_of hc hstore), wp_bind_of_eq (cursor_of hc')]
  by_cases hdone : c'.outstandingRequests = 0 ∧ c'.error ≠ none
  · rw [if_pos hdone, wp_of_eq (uncache_of hcached')]
    simp [hdone]
  · rw [if_neg hdone, wp_pure]
    simp [hdone]

theorem extendInternal_error {res : Response V} {e : Exn V} (hc : s.cursors[id]? = some c)
    (hstore : c.store res = .error e) : wp (extendInternal id res) (fun o _ => o = .error e) s := by
  unfold extendInternal storeResponse
  rw [wp_bind, wp_bind_of_eq (cursor_of hc)]
  simp only [hstore]
  rw [wp_bind_of_eq (modifyCursor_of hc _), wp_throw]
  exact rfl

/-- `_extend` up to the decoding. -/
theorem wp_extend (hopen : s.isOpen = true) (hc : s.cursors[id]? = some c) (buf : Bytes)
    {Q : Outcome (Exn V) Unit → Instance V → Prop} :
    wp (extend id buf) Q s ↔ wp (do
        let res ← ofExcept (Response.ofJson c.query.token buf c.jsonDecoder)
        extendInternal id res) Q
      { s with cursors := s.cursors.set id c.answered.fetch, unsent := s.unsent ++ asks c.answered } := by
  have hlt : id < s.cursors.length := (List.getElem?_eq_some_iff.mp hc).1
  let s₁ : Instance V := { s with cursors := s.cursors.set id c.answered }
  let s₂ : Instance V :=
    { s with cursors := s.cursors.set id c.answered.fetch, unsent := s.unsent ++ asks c.answered }
  have hc₁ : s₁.cursors[id]? = some c.answered := by simp [s₁, hlt]
  have hc₂ : s₂.cursors[id]? = some c.answered.fetch := by simp [s₂, hlt]
  have hopen₁ : s₁.isOpen = true := hopen
  have hfetch : maybeFetchBatch id s₁ = (.ok (), s₂) := by
    rw [maybeFetchBatch_of hopen₁ hc₁]
    simp [s₁, s₂]
  have hquery : c.answered.fetch.query = c.query ∧ c.answered.fetch.jsonDecoder = c.jsonDecoder := by
    unfold Cursor.fetch
    split <;> exact ⟨rfl, rfl⟩
  unfold extend
  rw [wp_bind_of_eq (modifyCursor_of hc _), wp_bind_of_eq hfetch, wp_bind_of_eq (cursor_of hc₂),
    hquery.1, hquery.2]

/-- Where `_extend` leaves things, when the response makes `c'` of the cursor `c`. -/
def extended (id : ℕ) (c c' : Cursor V) (s : Instance V) : Instance V :=
  { s with
    cursors := s.cursors.set id c'
    unsent := s.unsent ++ asks c.answered
    cursorCache := if c'.outstandingRequests = 0 ∧ c'.error ≠ none then s.cursorCache.erase c.query.token
      else s.cursorCache }

/-- `_extend` when the payload decodes and the cursor can store it. -/
theorem extend_of {c' : Cursor V} {buf : Bytes} {m : Message V} (hopen : s.isOpen = true)
    (hc : s.cursors[id]? = some c) (hcached : c.query.token ∈ s.cursorCache)
    (hdecode : c.jsonDecoder buf = .ok m)
    (hstore : c.answered.fetch.store { m with token := c.query.token } = .ok c') :
    extend id buf s = (.ok (), s.extended id c c') := by
  have hlt : id < s.cursors.length := (List.getElem?_eq_some_iff.mp hc).1
  have hres : Response.ofJson c.query.token buf c.jsonDecoder = .ok { m with token := c.query.token } := by
    rw [Response.ofJson, hdecode]
  let s₂ : Instance V :=
    { s with cursors := s.cursors.set id c.answered.fetch, unsent := s.unsent ++ asks c.answered }
  have hc₂ : s₂.cursors[id]? = some c.answered.fetch := by simp [s₂, hlt]
  have hcached₂ : c.query.token ∈ s₂.cursorCache := hcached
  apply eq_of_wp
  rw [wp_extend hopen hc, wp_ofExcept_bind_ok hres, wp_of_eq (extendInternal_of hc₂ hcached₂ hstore)]
  simp [s₂, extended]

/-- Otherwise it raises something of its own. -/
theorem extend_cases {buf : Bytes} (hopen : s.isOpen = true) (hc : s.cursors[id]? = some c)
    (hcached : c.query.token ∈ s.cursorCache) :
    (∃ m c', c.jsonDecoder buf = .ok m ∧
      c.answered.fetch.store { m with token := c.query.token } = .ok c' ∧
      extend id buf s = (.ok (), s.extended id c c')) ∨
    wp (extend id buf) (fun o _ => ∃ e, o = .error e ∧ e ≠ .driver "Unexpected response received.") s := by
  have hlt : id < s.cursors.length := (List.getElem?_eq_some_iff.mp hc).1
  cases hdecode : c.jsonDecoder buf with
  | error text =>
    right
    rw [wp_extend hopen hc, Response.ofJson, hdecode, wp_bind, wp_ofExcept_error, bindPost_error]
    exact ⟨_, rfl, by simp⟩
  | ok m =>
    have hres : Response.ofJson c.query.token buf c.jsonDecoder =
        .ok { m with token := c.query.token } := by rw [Response.ofJson, hdecode]
    cases hstore : c.answered.fetch.store { m with token := c.query.token } with
    | ok c' => exact .inl ⟨m, c', rfl, hstore, extend_of hopen hc hcached hdecode hstore⟩
    | error e =>
      right
      rw [wp_extend hopen hc, wp_ofExcept_bind_ok hres]
      apply (extendInternal_error (c := c.answered.fetch) (by simp [hlt]) hstore).mono
      rintro _ _ rfl
      exact ⟨e, rfl, by rw [Cursor.store_index hstore]; simp⟩

theorem closeCursor_of (hopen : s.isOpen = true) (hc : s.cursors[id]? = some c) (herr : c.error = none) :
    closeCursor id s = (.ok (), { s with
      cursors := s.cursors.set id (c.fail .cursorEmpty).request
      unsent := s.unsent ++ [c.query.token] }) := by
  have hlt : id < s.cursors.length := (List.getElem?_eq_some_iff.mp hc).1
  let s₁ : Instance V := { s with cursors := s.cursors.set id (c.fail .cursorEmpty) }
  have hopen₁ : s₁.isOpen = true := hopen
  have hc₁ : s₁.cursors[id]? = some (c.fail .cursorEmpty) := by simp [s₁, hlt]
  apply eq_of_wp
  unfold closeCursor
  rw [wp_bind_of_eq (cursor_of hc), if_pos herr, wp_bind_of_eq (modifyCursor_of hc _), wp_bind, wp_read,
    bindPost_ok, if_pos hopen₁, wp_bind_of_eq (modifyCursor_of hc₁ _), wp_modify]
  simp [s₁]

theorem closeCursor_done (hc : s.cursors[id]? = some c) (herr : c.error ≠ none) :
    closeCursor id s = (.ok (), s) := by
  apply eq_of_wp
  unfold closeCursor
  rw [wp_bind_of_eq (cursor_of hc), if_neg herr, wp_pure]
  exact ⟨rfl, rfl⟩

/-- Where the constructor of a cursor leaves things when its first response is a batch. -/
def opened (query : Query V) (res : Response V) (s : Instance V) : Instance V :=
  { s with
    cursors := s.cursors ++ [.opened query (s.getJsonDecoder query) res]
    cursorCache := s.cursorCache.insert query.token s.cursors.length
    unsent := s.unsent ++ [query.token] }

theorem newCursor_of {query : Query V} {res : Response V} (hopen : s.isOpen = true)
    (hres : res.IsBatch) (htoken : res.token = query.token) :
    newCursor query res s = (.ok s.cursors.length, s.opened query res) := by
  let c₀ : Cursor V := ⟨query, [], 0, 1, none, s.getJsonDecoder query⟩
  let c₁ : Cursor V := ⟨query, [], 1, 1, none, s.getJsonDecoder query⟩
  let s₁ : Instance V := openCursor query s
  let s₂ : Instance V :=
    { s₁ with cursors := s.cursors ++ [c₁], unsent := s.unsent ++ [query.token] }
  have hopen₁ : s₁.isOpen = true := hopen
  have hc₁ : s₁.cursors[s.cursors.length]? = some c₀ := by simp [s₁, openCursor, c₀]
  have hc₂ : s₂.cursors[s.cursors.length]? = some c₁ := by simp [s₂]
  have hwants : c₀.WantsBatch := ⟨rfl, Nat.zero_lt_one, rfl⟩
  have hfetch : maybeFetchBatch s.cursors.length s₁ = (.ok (), s₂) := by
    have hasks : asks c₀ = [query.token] := if_pos hwants
    have hrequest : c₀.fetch = c₁ := if_pos hwants
    rw [maybeFetchBatch_of hopen₁ hc₁, hasks, hrequest]
    simp [s₁, s₂, openCursor]
  have hcached : res.token ∈ s₂.cursorCache := by
    rw [htoken]
    simp [s₂, s₁, openCursor]
  have hmodify : (modify (openCursor query) : Act V Unit) s = (.ok (), s₁) := rfl
  apply eq_of_wp
  unfold newCursor
  rw [wp_bind, wp_read, bindPost_ok, wp_bind_of_eq hmodify, wp_bind_of_eq hfetch,
    wp_bind_of_eq (extendInternal_of hc₂ hcached (Cursor.store_batch hres c₁)), wp_pure]
  constructor
  · exact rfl
  · simp [Cursor.stored, c₁, s₂, s₁, openCursor, opened, Cursor.opened_batch hres]

/-- What a response says to the query that waits for it; `id` is the cursor a batch opens. -/
def verdict (query : Query V) (id : ℕ) (res : Response V) : Except (Exn V) (FutureState V) :=
  match res.type with
  | .successAtom => (Driver.firstDatum res).map fun v => .result (maybeProfile (.value v) res)
  | .successSequence | .successPartial => .ok (.result (maybeProfile (.cursor id) res))
  | .waitComplete => .ok (.result .none)
  | .serverInfo => (Driver.firstDatum res).map fun v => .result (.value v)
  | _ => (res.makeError query).map .exception

/-- The state in which `settle` comes to the future. -/
def arranged (query : Query V) (res : Response V) (s : Instance V) : Instance V :=
  if res.IsBatch then s.opened query res else s

@[simp] theorem arranged_futures (query : Query V) (res : Response V) (s : Instance V) :
    (s.arranged query res).futures = s.futures := by
  unfold arranged
  split <;> rfl

@[simp] theorem arranged_userQueries (query : Query V) (res : Response V) (s : Instance V) :
    (s.arranged query res).userQueries = s.userQueries := by
  unfold arranged
  split <;> rfl

@[simp] theorem arranged_jsonDecoder (query : Query V) (res : Response V) (s : Instance V) :
    (s.arranged query res).jsonDecoder = s.jsonDecoder := by
  unfold arranged
  split <;> rfl

@[simp] theorem arranged_isOpen (query : Query V) (res : Response V) (s : Instance V) :
    (s.arranged query res).isOpen = s.isOpen := by
  unfold arranged
  split <;> rfl

@[simp] theorem arranged_closing (query : Query V) (res : Response V) (s : Instance V) :
    (s.arranged query res).closing = s.closing := by
  unfold arranged
  split <;> rfl

/-- `settle` is its verdict, told to the future. -/
theorem wp_settle {driver : Driver} {query : Query V} {future : ℕ} {res : Response V}
    (hopen : s.isOpen = true) (htoken : res.token = query.token)
    {Q : Outcome (Exn V) Unit → Instance V → Prop} :
    wp (settle driver query future res) Q s ↔
      match verdict query s.cursors.length res with
      | .ok state => wp (resolve driver future state) Q (s.arranged query res)
      | .error e => Q (.error e) s := by
  have hplain : ¬res.IsBatch → s.arranged query res = s := fun h => if_neg h
  have hbatch : res.IsBatch → s.arranged query res = s.opened query res := fun h => if_pos h
  unfold settle verdict
  cases htype : res.type with
  | successAtom | serverInfo =>
    rw [hplain (by simp [Response.IsBatch, htype])]
    cases Driver.firstDatum res <;> simp [Except.map]
  | successSequence | successPartial =>
    have hres : res.IsBatch := by simp [Response.IsBatch, htype]
    dsimp only
    rw [wp_bind_of_eq (newCursor_of hopen hres htoken), hbatch hres]
  | waitComplete => rw [hplain (by simp [Response.IsBatch, htype])]
  | clientError | compileError | runtimeError | other n =>
    rw [hplain (by simp [Response.IsBatch, htype])]
    cases res.makeError query <;> simp [Except.map]

theorem verdict_error {query : Query V} {id : ℕ} {res : Response V} {e : Exn V}
    (h : verdict query id res = .error e) : e = .index := by
  have hdatum : ∀ {f : V → FutureState V}, (Driver.firstDatum res).map f = .error e → e = .index := by
    intro f hf
    unfold Driver.firstDatum at hf
    cases hdata : res.data with
    | nil =>
      rw [hdata] at hf
      cases hf
      rfl
    | cons v vs =>
      rw [hdata] at hf
      cases hf
  have hmade : ∀ {f : Exn V → FutureState V}, (res.makeError query).map f = .error e → e = .index := by
    intro f hf
    cases hmake : res.makeError query with
    | error e' =>
      rw [hmake] at hf
      cases hf
      exact res.makeError_index hmake
    | ok e' =>
      rw [hmake] at hf
      cases hf
  unfold verdict at h
  split at h
  · exact hdatum h
  · cases h
  · cases h
  · cases h
  · exact hdatum h
  · exact hmade h

theorem resolve_of {driver : Driver} {future : ℕ} {state : FutureState V}
    (h : s.futures[future]? = some .pending ∨ ¬driver.Strict) :
    resolve driver future state s = (.ok (), { s with futures := s.futures.set future state }) := by
  unfold resolve
  split
  · rfl
  · rename_i hdone
    rcases h with hpending | hlax
    · exact absurd hpending hdone
    · rw [if_neg hlax]

theorem resolve_error {driver : Driver} {future : ℕ} {state : FutureState V} (hstrict : driver.Strict)
    (h : s.futures[future]? ≠ some .pending) :
    resolve driver future state s = (.error (.foreign "invalid state"), s) := by
  unfold resolve
  split
  · rename_i hpending
    exact absurd hpending h
  · rw [if_pos hstrict]

/-- A frame for a cursor goes to the cursor. -/
theorem handleFrame_cursor {driver : Driver} {token : ℤ} {buf : Bytes}
    (h : s.cursorCache.lookup token = some id) :
    handleFrame driver token buf s = extend id buf s := by
  apply eq_of_wp
  unfold handleFrame
  rw [wp_bind, wp_read, bindPost_ok, h]
  exact ⟨rfl, rfl⟩

/-- A frame that nobody waits for. -/
theorem handleFrame_stray {driver : Driver} {token : ℤ} {buf : Bytes}
    (hcache : s.cursorCache.lookup token = none) (hqueries : s.userQueries.lookup token = none)
    (hclosing : s.closing = false) :
    handleFrame driver token buf s = (.error (.driver "Unexpected response received."), s) := by
  apply eq_of_wp
  unfold handleFrame
  rw [wp_bind, wp_read, bindPost_ok, hcache]
  dsimp only
  rw [wp_bind, wp_read, bindPost_ok, hqueries]
  dsimp only
  rw [wp_bind, wp_read, bindPost_ok, hclosing, if_neg (by simp), wp_throw]
  exact ⟨rfl, rfl⟩

/-- A frame for a query. -/
theorem wp_handleFrame_query {driver : Driver} {query : Query V} {future : ℕ} {buf : Bytes}
    (hopen : s.isOpen = true) (hcache : s.cursorCache.lookup query.token = none)
    (hqueries : s.userQueries.lookup query.token = some (query, future))
    {Q : Outcome (Exn V) Unit → Instance V → Prop} :
    wp (handleFrame driver query.token buf) Q s ↔
      match s.getJsonDecoder query buf with
      | .error text => Q (.error (.foreign text)) s
      | .ok m => match verdict query s.cursors.length { m with token := query.token } with
        | .error e => Q (.error e) s
        | .ok state => wp (resolve driver future state)
            (bindPost (fun _ => modify fun s => { s with userQueries := s.userQueries.erase query.token }) Q)
            (s.arranged query { m with token := query.token }) := by
  unfold handleFrame
  rw [wp_bind, wp_read, bindPost_ok, hcache]
  dsimp only
  rw [wp_bind, wp_read, bindPost_ok, hqueries]
  dsimp only
  rw [wp_bind, wp_read, bindPost_ok, Response.ofJson]
  cases s.getJsonDecoder query buf with
  | error text => exact Iff.rfl
  | ok m =>
    dsimp only
    rw [wp_bind, wp_ofExcept_ok, bindPost_ok, wp_bind, wp_settle hopen rfl]
    cases verdict query s.cursors.length { m with token := query.token } <;> exact Iff.rfl

/-- Where the reader leaves things after the response to `query`. -/
def settled (query : Query V) (future : ℕ) (res : Response V) (state : FutureState V)
    (s : Instance V) : Instance V :=
  { s.arranged query res with
    futures := s.futures.set future state
    userQueries := s.userQueries.erase query.token }

/-- A response that the future takes. -/
theorem handleFrame_settles {driver : Driver} {query : Query V} {future : ℕ} {buf : Bytes}
    {m : Message V} {state : FutureState V} (hopen : s.isOpen = true)
    (hcache : s.cursorCache.lookup query.token = none)
    (hqueries : s.userQueries.lookup query.token = some (query, future))
    (hdecode : s.getJsonDecoder query buf = .ok m)
    (hverdict : verdict query s.cursors.length { m with token := query.token } = .ok state)
    (hfuture : s.futures[future]? = some .pending ∨ ¬driver.Strict) :
    handleFrame driver query.token buf s =
      (.ok (), s.settled query future { m with token := query.token } state) := by
  have hfuture' := hfuture
  rw [← s.arranged_futures query { m with token := query.token }] at hfuture'
  apply eq_of_wp
  rw [wp_handleFrame_query hopen hcache hqueries, hdecode]
  dsimp only
  rw [hverdict]
  dsimp only
  rw [wp_of_eq (resolve_of hfuture'), bindPost_ok, wp_modify]
  simp [settled]

/-- A response to a future that is done already. -/
theorem handleFrame_invalid {driver : Driver} {query : Query V} {future : ℕ} {buf : Bytes}
    {m : Message V} {state : FutureState V} (hopen : s.isOpen = true)
    (hcache : s.cursorCache.lookup query.token = none)
    (hqueries : s.userQueries.lookup query.token = some (query, future))
    (hdecode : s.getJsonDecoder query buf = .ok m)
    (hverdict : verdict query s.cursors.length { m with token := query.token } = .ok state)
    (hstrict : driver.Strict) (hfuture : s.futures[future]? ≠ some .pending) :
    wp (handleFrame driver query.token buf) (fun o _ => o = .error (.foreign "invalid state")) s := by
  rw [← s.arranged_futures query { m with token := query.token }] at hfuture
  rw [wp_handleFrame_query hopen hcache hqueries, hdecode]
  dsimp only
  rw [hverdict]
  dsimp only
  rw [wp_of_eq (resolve_error hstrict hfuture), bindPost_error]

/-- Whatever becomes of it, the reader does not take it for a stray. -/
theorem handleFrame_query {driver : Driver} {query : Query V} {future : ℕ} {buf : Bytes}
    (hopen : s.isOpen = true) (hcache : s.cursorCache.lookup query.token = none)
    (hqueries : s.userQueries.lookup query.token = some (query, future)) :
    (∃ m state, s.getJsonDecoder query buf = .ok m ∧
      verdict query s.cursors.length { m with token := query.token } = .ok state ∧
      handleFrame driver query.token buf s =
        (.ok (), s.settled query future { m with token := query.token } state)) ∨
    wp (handleFrame driver query.token buf)
      (fun o _ => ∃ e, o = .error e ∧ e ≠ .driver "Unexpected response received.") s := by
  cases hdecode : s.getJsonDecoder query buf with
  | error text =>
    right
    rw [wp_handleFrame_query hopen hcache hqueries, hdecode]
    exact ⟨_, rfl, by simp⟩
  | ok m =>
    cases hverdict : verdict query s.cursors.length { m with token := query.token } with
    | error e =>
      right
      rw [wp_handleFrame_query hopen hcache hqueries, hdecode]
      dsimp only
      rw [hverdict]
      exact ⟨e, rfl, by rw [verdict_error hverdict]; simp⟩
    | ok state =>
      by_cases hfuture : s.futures[future]? = some .pending ∨ ¬driver.Strict
      · exact .inl ⟨m, state, rfl, hverdict,
          handleFrame_settles hopen hcache hqueries hdecode hverdict hfuture⟩
      · obtain ⟨hdone, hstrict⟩ := not_or.mp hfuture
        right
        apply (handleFrame_invalid hopen hcache hqueries hdecode hverdict (not_not.mp hstrict)
          hdone).mono
        rintro _ _ rfl
        exact ⟨_, rfl, by simp⟩

end Instance
end RethinkDB.Async
