import RethinkDB.Lib.Machine
import RethinkDB.Async.Instance

/-! How the asyncio and the Trio connection end: the reader that fails and closes, and the user's `close`,
each waiting in several places while the others run. -/
namespace RethinkDB.Async
open RethinkDB.Lib Net Prog

variable {V : Type}

/-- Where the reader stands. The Trio reader `spins` at the end of the stream, where `receive_some` gives
it nothing for ever; a reader that is `joining` waits, inside `close`, for its own end. -/
inductive Reader where
  | starting | reading | spinning | closing | joining | ended
  deriving Repr, DecidableEq

def Reader.Alive (r : Reader) : Prop := r = .starting ∨ r = .reading

instance (r : Reader) : Decidable r.Alive := inferInstanceAs (Decidable (_ ∨ _))

/-- Where the user's `close` stands: `sending` before its `NOREPLY_WAIT` has a future, `waiting` for
that, `closing` the stream, and `joining` the reader. -/
inductive Closer where
  | idle
  | sending (token : ℤ)
  | waiting (future : ℕ)
  | closing | joining | done
  deriving Repr, DecidableEq

/-- `calls` are the calls of `run_query` that have no future in the table yet: not started in asyncio,
not started or still sending in Trio. -/
structure Life (V : Type) where
  inst : Instance V
  nextToken : ℤ
  calls : List (Query V)
  reader : Reader
  closer : Closer

inductive LifeStep (V : Type) where
  | start
  | call (query : Query V)
  | register
  /-- The end of the stream is seen, or a write fails. -/
  | lost
  | fetch (id : ℕ)
  | next (id : ℕ)
  | closeCursor (id : ℕ)
  | frame (token : ℤ) (buf : Bytes)
  /-- The reader raises, over a frame or over the stream; `text` is `str(ex)`. -/
  | fail (cause : Option (ℤ × Bytes)) (text : String)
  | endOfStream
  | readerClosed
  | close (noreplyWait : Bool)
  | closerAnswered
  | closerFailed
  | closerClosed
  | closerJoined

/-- `Query(P_QUERY.NOREPLY_WAIT, token, None, None)`. -/
def Instance.noreplyWait (s : Instance V) (token : ℤ) : Query V :=
  ⟨.noreplyWait, token, none, .ok (s.numbering.queryJson .noreplyWait), none, false⟩

namespace Life

def fail (inst : Instance V) (text : String) (L : Life V) : Life V :=
  if inst.closing then { L with inst, reader := .ended }
  else match Instance.shut (some text) inst with
    | (.ok (), inst) => { L with inst, reader := .closing }
    | (_, inst) => { L with inst, reader := .ended }

/-- `Connection.close` up to where it waits: asyncio writes the `NOREPLY_WAIT` and registers at once. -/
def close (driver : Driver) (noreplyWait : Bool) (L : Life V) : Life V :=
  match Instance.shut none L.inst with
  | (.ok (), inst) =>
    if noreplyWait then match driver with
      | .asyncio => { L with
          inst := inst.register (inst.noreplyWait L.nextToken)
          nextToken := L.nextToken + 1
          closer := .waiting inst.futures.length }
      | _ => { L with
          inst
          nextToken := L.nextToken + 1
          calls := L.calls ++ [inst.noreplyWait L.nextToken]
          closer := .sending L.nextToken }
    else { L with inst, nextToken := L.nextToken + 1, closer := .closing }
  | (_, inst) => { L with inst, nextToken := L.nextToken + 1, closer := .done }

/-- How the reader comes to its `except` clause. -/
def Breaks (driver : Driver) (L : Life V) (inst : Instance V) : Option (ℤ × Bytes) → Prop
  | none => (L.reader = .reading ∨ L.reader = .spinning) ∧ inst = L.inst
  | some (token, buf) => L.reader = .reading ∧
      ∃ e, Instance.handleFrame driver token buf L.inst = (.error e, inst)

inductive Step (driver : Driver) : Life V → LifeStep V → Life V → Prop
  | start {L : Life V} : L.reader = .starting → Step driver L .start { L with reader := .reading }
  -- `check_open`, which finds no instance once the user has closed
  | call {L query} : L.closer = .idle → L.inst.isOpen = true → query.token = L.nextToken →
      Step driver L (.call query) { L with calls := L.calls ++ [query], nextToken := L.nextToken + 1 }
  | register {L before query after} : L.calls = before ++ query :: after →
      Step driver L .register { L with
        inst := L.inst.register query
        calls := before ++ after
        closer := if L.closer = .sending query.token then .waiting L.inst.futures.length else L.closer }
  | lost {L} : Step driver L .lost { L with inst := { L.inst with isOpen := false } }
  | fetch {L id o inst} : Instance.maybeFetchBatch id L.inst = (o, inst) →
      Step driver L (.fetch id) { L with inst }
  | next {L id c v vs} : L.inst.cursors[id]? = some c → c.items = v :: vs →
      Step driver L (.next id) { L with
        inst := { L.inst with cursors := L.inst.cursors.set id { c with items := vs } } }
  | closeCursor {L id o inst} : Instance.closeCursor id L.inst = (o, inst) →
      Step driver L (.closeCursor id) { L with inst }
  | frame {L token buf inst} : L.reader = .reading →
      Instance.handleFrame driver token buf L.inst = (.ok (), inst) →
      Step driver L (.frame token buf) { L with inst }
  | fail {L cause text inst} : L.Breaks driver inst cause →
      Step driver L (.fail cause text) (L.fail inst text)
  | endOfStream {L} : driver = .trio → L.reader = .reading →
      Step driver L .endOfStream { L with reader := .spinning }
  -- `if self._reader_ended_event:` holds in the reader; asyncio asks for the exception too
  | readerClosed {L} : L.reader = .closing →
      Step driver L .readerClosed { L with reader := if driver = .trio then .joining else .ended }
  | close {L noreplyWait} : L.closer = .idle →
      Step driver L (.close noreplyWait) (L.close driver noreplyWait)
  | closerAnswered {L future reply} : L.closer = .waiting future →
      L.inst.futures[future]? = some (.result reply) →
      Step driver L .closerAnswered { L with closer := .closing }
  | closerFailed {L future e} : L.closer = .waiting future →
      L.inst.futures[future]? = some (.exception e) →
      Step driver L .closerFailed { L with closer := .done }
  -- the event of the Trio reader is there once it has started
  | closerClosed {L} : L.closer = .closing →
      Step driver L .closerClosed { L with
        closer := if driver = .trio ∧ L.reader = .starting then .done else .joining }
  | closerJoined {L} : L.closer = .joining → L.reader = .ended →
      Step driver L .closerJoined { L with closer := .done }

structure Fresh (L : Life V) : Prop where
  closing : L.inst.closing = false
  userQueries : L.inst.userQueries = ∅
  cursorCache : L.inst.cursorCache = ∅
  calls : L.calls = []
  reader : L.reader = .starting
  closer : L.closer = .idle

def machine (driver : Driver) : Machine (Life V) (LifeStep V) := ⟨Fresh, Step driver⟩

end Life

/-! ### What closing and failing leave alone -/

structure Untouched (s s' : Instance V) : Prop where
  futures : s'.futures = s.futures
  userQueries : s'.userQueries = s.userQueries
  closing : s'.closing = s.closing

instance : Std.Refl (Untouched (V := V)) := ⟨fun _ => ⟨rfl, rfl, rfl⟩⟩

theorem Untouched.trans {s s' s'' : Instance V} (h : Untouched s s') (h' : Untouched s' s'') :
    Untouched s s'' :=
  ⟨h'.futures.trans h.futures, h'.userQueries.trans h.userQueries, h'.closing.trans h.closing⟩

instance : IsTrans (Instance V) Untouched := ⟨fun _ _ _ => Untouched.trans⟩

namespace Instance

theorem cursor_untouched (id : ℕ) : Respects Untouched (cursor id : Act V (Cursor V)) := by
  intro s
  unfold wp cursor
  cases s.cursors[id]? <;> exact ⟨by simp, Std.Refl.refl s⟩

theorem modifyCursor_untouched (id : ℕ) (f : Cursor V → Cursor V) :
    Respects Untouched (modifyCursor id f : Act V Unit) :=
  respects_modify fun _ => ⟨rfl, rfl, rfl⟩

theorem maybeFetchBatch_untouched (id : ℕ) : Respects Untouched (maybeFetchBatch id : Act V Unit) := by
  apply (cursor_untouched id).bind
  intro c
  apply Respects.ite
  · apply (modifyCursor_untouched id _).bind
    intro _
    apply (respects_read _).bind
    intro isOpen
    apply Respects.ite
    · exact respects_modify fun _ => ⟨rfl, rfl, rfl⟩
    · exact respects_throw _
  · exact respects_pure _

theorem uncache_untouched (token : ℤ) : Respects Untouched (uncache token : Act V Unit) := by
  intro s
  unfold wp uncache
  by_cases h : token ∈ s.cursorCache
  · rw [if_pos h]
    exact ⟨by simp, ⟨rfl, rfl, rfl⟩⟩
  · rw [if_neg h]
    exact ⟨by simp, Std.Refl.refl s⟩

theorem extendInternal_untouched (id : ℕ) (res : Response V) :
    Respects Untouched (extendInternal id res : Act V Unit) := by
  have hstore : Respects Untouched (storeResponse id res : Act V Unit) := by
    apply (cursor_untouched id).bind
    intro c
    cases c.store res with
    | ok c' => exact modifyCursor_untouched id _
    | error e => exact (modifyCursor_untouched id _).bind fun _ => respects_throw e
  apply hstore.bind
  intro _
  apply (cursor_untouched id).bind
  intro c
  apply Respects.ite
  · exact uncache_untouched res.token
  · exact respects_pure _

theorem extend_untouched (id : ℕ) (buf : Bytes) : Respects Untouched (extend id buf : Act V Unit) := by
  apply (modifyCursor_untouched id _).bind
  intro _
  apply (maybeFetchBatch_untouched id).bind
  intro _
  apply (cursor_untouched id).bind
  intro c
  apply (respects_ofExcept _).bind
  exact fun res => extendInternal_untouched id res

theorem cursorError_untouched (message : String) (id : ℕ) :
    Respects Untouched (cursorError message id : Act V Unit) := by
  apply (cursor_untouched id).bind
  intro c
  apply Respects.ite
  · apply (modifyCursor_untouched id _).bind
    intro _
    apply (respects_read _).bind
    exact fun buf => extend_untouched id buf
  · exact respects_pure _

theorem closeCursor_untouched (id : ℕ) : Respects Untouched (closeCursor id : Act V Unit) := by
  apply (cursor_untouched id).bind
  intro c
  apply Respects.ite
  · apply (modifyCursor_untouched id _).bind
    intro _
    apply (respects_read _).bind
    intro isOpen
    apply Respects.ite
    · apply (modifyCursor_untouched id _).bind
      exact fun _ => respects_modify fun _ => ⟨rfl, rfl, rfl⟩
    · exact respects_pure _
  · exact respects_pure _

theorem newCursor_untouched (query : Query V) (first : Response V) :
    Respects Untouched (newCursor query first : Act V ℕ) := by
  apply (respects_read _).bind
  intro id
  apply (respects_modify fun _ => ⟨rfl, rfl, rfl⟩).bind
  intro _
  apply (maybeFetchBatch_untouched id).bind
  intro _
  apply (extendInternal_untouched id first).bind
  exact fun _ => respects_pure _

/-- What comes back with an exception has touched nothing. -/
def Raises {α : Type} (s : Instance V) : Outcome (Exn V) α → Instance V → Prop
  | .ok _, _ => True
  | .error _, s' => Untouched s s'
  | .running, _ => False

variable {s : Instance V}

theorem Raises.of_untouched {α : Type} {m : Act V α} (h : Respects Untouched m) : wp m (Raises s) s := by
  apply (h s).mono
  intro o s' hm
  cases o with
  | ok a => exact trivial
  | error e => exact hm.2
  | running => exact absurd rfl hm.1

/-- The future comes last. -/
theorem Raises.resolve {α : Type} {m : Act V α} (h : Respects Untouched m) (driver : Driver) (future : ℕ)
    (state : α → FutureState V) :
    wp (m >>= fun a => Instance.resolve driver future (state a)) (Raises s) s := by
  apply h.wp_bind
  · exact fun _ _ htouched => htouched
  · intro a s' htouched
    unfold wp Instance.resolve
    split
    · exact trivial
    · split
      · exact htouched
      · exact trivial

theorem settle_raises (driver : Driver) (query : Query V) (future : ℕ) (res : Response V) :
    wp (settle driver query future res) (Raises s) s := by
  have hpure : Respects Untouched (pure () : Act V Unit) := respects_pure ()
  unfold settle
  split
  · exact Raises.resolve (respects_ofExcept _) driver future _
  · exact Raises.resolve (newCursor_untouched query res) driver future _
  · exact Raises.resolve (newCursor_untouched query res) driver future _
  · exact Raises.resolve hpure driver future fun _ => .result .none
  · exact Raises.resolve (respects_ofExcept _) driver future _
  · exact Raises.resolve (respects_ofExcept _) driver future _

theorem handleFrame_raises (driver : Driver) (token : ℤ) (buf : Bytes) :
    wp (handleFrame driver token buf) (Raises s) s := by
  unfold handleFrame
  rw [wp_bind, wp_read, bindPost_ok]
  cases s.cursorCache.lookup token with
  | some id => exact .of_untouched (extend_untouched id buf)
  | none =>
    dsimp only
    rw [wp_bind, wp_read, bindPost_ok]
    cases s.userQueries.lookup token with
    | some entry =>
      dsimp only
      rw [wp_bind, wp_read, bindPost_ok]
      apply wp_ofExcept_bind
      · exact fun e => Std.Refl.refl s
      · intro res _
        rw [wp_bind]
        apply (settle_raises driver entry.1 entry.2 res).mono
        intro o s' ho
        cases o with
        | ok _ => exact trivial
        | error e => exact ho
        | running => exact ho
    | none =>
      dsimp only
      rw [wp_bind, wp_read, bindPost_ok, wp_ite]
      exact ⟨fun _ => trivial, fun _ => Std.Refl.refl s⟩

/-- `close` up to where it waits empties the table, unless a cursor raises; then it has only begun. -/
theorem wp_shut (exception : Option String) : wp (shut exception) (fun o s' => match o with
    | .ok _ => s'.closing = true ∧ s'.userQueries = ∅
    | .error _ => s'.closing = true ∧ s'.futures = s.futures ∧ s'.userQueries = s.userQueries
    | .running => False) s := by
  unfold shut
  dsimp only
  rw [wp_bind, wp_modify, bindPost_ok, wp_bind, wp_read, bindPost_ok]
  apply (Respects.forEach (cursorError_untouched _) _).wp_bind
  · exact fun _ s' htouched => ⟨htouched.closing, htouched.futures, htouched.userQueries⟩
  · intro _ s' htouched
    rw [wp_modify]
    exact ⟨htouched.closing, rfl⟩

end Instance

namespace Life

variable {driver : Driver} {L L' : Life V}

/-- A future that a task awaits, with its query still in the table. -/
def Pending (s : Instance V) : Prop := ∃ t query future,
  s.userQueries.lookup t = some (query, future) ∧ s.futures[future]? = some .pending

/-- The `close` of the reader does not get to the stream: a cursor raises. -/
def ShutRaises (exception : Option String) (s : Instance V) : Prop :=
  (Instance.shut exception s).1 ≠ .ok ()

theorem pending_congr {s s' : Instance V} (hfutures : s'.futures = s.futures)
    (hqueries : s'.userQueries = s.userQueries) : Pending s' ↔ Pending s := by
  unfold Pending
  rw [hfutures, hqueries]

theorem not_pending_empty {s : Instance V} (h : s.userQueries = ∅) : ¬Pending s := by
  rintro ⟨t, query, future, hlookup, -⟩
  rw [h, AList.lookup_empty] at hlookup
  cases hlookup

theorem Breaks.untouched {inst : Instance V} {cause : Option (ℤ × Bytes)}
    (h : L.Breaks driver inst cause) : Untouched L.inst inst := by
  cases cause with
  | none =>
    rw [h.2]
    exact Std.Refl.refl _
  | some frame =>
    obtain ⟨-, e, he⟩ := h
    have hraises := Instance.handleFrame_raises (s := L.inst) driver frame.1 frame.2
    rw [wp_of_eq he] at hraises
    exact hraises

theorem Breaks.unique {inst inst' : Instance V} {cause : Option (ℤ × Bytes)}
    (h : L.Breaks driver inst cause) (h' : L.Breaks driver inst' cause) : inst = inst' := by
  cases cause with
  | none => exact h.2.trans h'.2.symm
  | some frame =>
    obtain ⟨-, e, he⟩ := h
    obtain ⟨-, e', he'⟩ := h'
    exact (Prod.mk.inj (he.symm.trans he')).2

/-- Where the reader's `except` clause leaves it. -/
theorem fail_reader (inst : Instance V) (text : String) :
    (inst.closing = true ∧ L.fail inst text = { L with inst, reader := .ended }) ∨
    (inst.closing = false ∧ ¬ShutRaises (some text) inst ∧ ∃ inst', inst'.closing = true ∧
      inst'.userQueries = ∅ ∧ L.fail inst text = { L with inst := inst', reader := .closing }) ∨
    (inst.closing = false ∧ ShutRaises (some text) inst ∧ ∃ inst', inst'.closing = true ∧
      inst'.futures = inst.futures ∧ inst'.userQueries = inst.userQueries ∧
      L.fail inst text = { L with inst := inst', reader := .ended }) := by
  have hshut := Instance.wp_shut (s := inst) (some text)
  unfold wp at hshut
  unfold fail ShutRaises
  cases hclosing : inst.closing with
  | true => exact .inl ⟨rfl, if_pos rfl⟩
  | false =>
    rw [if_neg (by simp)]
    rcases hout : Instance.shut (some text) inst with ⟨_ | e | _, inst'⟩
    · rw [hout] at hshut
      exact .inr (.inl ⟨rfl, by simp, inst', hshut.1, hshut.2, rfl⟩)
    · rw [hout] at hshut
      exact .inr (.inr ⟨rfl, by simp, inst', hshut.1, hshut.2.1, hshut.2.2, rfl⟩)
    · rw [hout] at hshut
      exact hshut.elim

/-- `close` concerns the reader only through the instance. -/
theorem close_reader (noreplyWait : Bool) (L : Life V) :
    (L.close driver noreplyWait).reader = L.reader := by
  unfold Life.close
  split
  · split
    · split <;> exact rfl
    · exact rfl
  · exact rfl

/-! ### The Trio reader and its own end -/

/-- The reader fails only when somebody has begun to close, or when its own `close` raises. -/
def Orderly (driver : Driver) (L : Life V) : LifeStep V → Prop
  | .fail cause text => L.inst.closing = true ∨
      ∀ inst, L.Breaks driver inst cause → ShutRaises (some text) inst
  | _ => True

/-- Nobody lets a reader go that waits for itself. -/
theorem joining_forever (hjoining : L.reader = .joining) (hleads : (machine driver).Leads L L') :
    L'.reader = .joining := by
  induction hleads with
  | refl => exact hjoining
  | tail _ hstep ih =>
    obtain ⟨i, hi⟩ := hstep
    cases hi with
    | start hreader => cases hreader.symm.trans ih
    | fail hbreaks =>
      rename_i cause text inst
      cases cause with
      | none => rcases hbreaks.1 with hreader | hreader <;> cases hreader.symm.trans ih
      | some frame => cases hbreaks.1.symm.trans ih
    | endOfStream _ hreader => cases hreader.symm.trans ih
    | readerClosed hreader => cases hreader.symm.trans ih
    | close _ => exact (close_reader _ _).trans ih
    | _ => exact ih

/-- The run rule: an orderly Trio reader never comes to wait. -/
theorem not_waiting (h : (machine .trio).ReachedBy (Orderly .trio) L) :
    L.reader ≠ .closing ∧ L.reader ≠ .joining := by
  apply h.invariant
  · intro L hfresh
    rw [hfresh.reader]
    exact ⟨nofun, nofun⟩
  · intro L i L' _ hsafe horderly hstep
    cases hstep with
    | start _ => exact ⟨nofun, nofun⟩
    | endOfStream _ _ => exact ⟨nofun, nofun⟩
    | readerClosed hreader => exact absurd hreader hsafe.1
    | close _ =>
      rw [close_reader]
      exact hsafe
    | fail hbreaks =>
      rename_i cause text inst
      have hclosing := hbreaks.untouched.closing
      rcases L.fail_reader inst text with ⟨-, heq⟩ | ⟨hopen, hclean, -⟩ | ⟨-, -, inst', -, -, -, heq⟩
      · rw [heq]
        exact ⟨nofun, nofun⟩
      · rcases horderly with hbegun | hraises
        · cases (hclosing.trans hbegun).symm.trans hopen
        · exact absurd (hraises inst hbreaks) hclean
      · rw [heq]
        exact ⟨nofun, nofun⟩
    | _ => exact hsafe

/-- An orderly error ends the reader. -/
theorem fail_ended {inst : Instance V} {cause : Option (ℤ × Bytes)} {text : String}
    (horderly : L.Orderly driver (.fail cause text)) (hbreaks : L.Breaks driver inst cause) :
    (L.fail inst text).reader = .ended := by
  have hclosing := hbreaks.untouched.closing
  rcases L.fail_reader inst text with ⟨-, heq⟩ | ⟨hopen, hclean, -⟩ | ⟨-, -, inst', -, -, -, heq⟩
  · rw [heq]
  · rcases horderly with hbegun | hraises
    · cases (hclosing.trans hbegun).symm.trans hopen
    · exact absurd (hraises inst hbreaks) hclean
  · rw [heq]

/-- The Trio reader ends at its first error, and never waits for itself, if that error comes after
somebody has begun to close, and who waits for it goes on; any earlier error that does not make `close`
raise leaves it waiting for its own end for ever. -/
theorem ends_iff_orderly :
    (∀ L : Life V, (machine .trio).ReachedBy (Orderly .trio) L → L.reader ≠ .joining ∧
      ∀ cause text L', L.Orderly .trio (.fail cause text) → Step .trio L (.fail cause text) L' →
        L'.reader = .ended ∧
          (L'.closer = .joining → Step .trio L' .closerJoined { L' with closer := .done })) ∧
    ∀ (L : Life V) i L', (machine .trio).Reachable L → ¬L.Orderly .trio i → Step .trio L i L' →
      ∃ L'', (machine .trio).Leads L' L'' ∧ L''.reader = .joining ∧
        ∀ L''', (machine .trio).Leads L'' L''' → L'''.reader = .joining := by
  constructor
  · intro L h
    refine ⟨(not_waiting h).2, ?_⟩
    intro cause text L' horderly hstep
    cases hstep with
    | fail hbreaks =>
      have hended := fail_ended horderly hbreaks
      exact ⟨hended, fun hjoining => .closerJoined hjoining hended⟩
  · intro L i L' _ hearly hstep
    cases hstep with
    | fail hbreaks =>
      rename_i cause text inst
      obtain ⟨hopen, hclean⟩ := not_or.mp hearly
      simp only [not_forall] at hclean
      obtain ⟨inst₀, hbreaks₀, hclean⟩ := hclean
      obtain rfl : inst = inst₀ := hbreaks.unique hbreaks₀
      have hclosing := hbreaks.untouched.closing
      rcases L.fail_reader inst text with ⟨hbegun, -⟩ | ⟨-, -, inst', -, -, heq⟩ | ⟨-, hraises, -⟩
      · exact absurd (hclosing.symm.trans hbegun) hopen
      · have hstep : (machine .trio).step (L.fail inst text) .readerClosed
            { L.fail inst text with reader := .joining } := by
          apply Step.readerClosed
          rw [heq]
        exact ⟨_, .single hstep, rfl, fun _ hleads => joining_forever rfl hleads⟩
      · exact absurd hraises hclean
    | _ => exact absurd trivial hearly

def fresh : Life ℕ :=
  ⟨⟨⟨fun _ => [], nil_length_lt, []⟩, fun _ => .error "", true, false, ∅, ∅, [], [], []⟩, 0, [],
    .starting, .idle⟩

def atWork : Life ℕ := { fresh with reader := .reading }

theorem atWork_reached (driver : Driver) {ok : Life ℕ → LifeStep ℕ → Prop} (hok : ok fresh .start) :
    (machine driver).ReachedBy ok atWork := by
  have hfresh : fresh.Fresh := by
    constructor <;> exact rfl
  have hstart : Step driver fresh .start atWork := .start rfl
  exact .step (.init hfresh) hok hstart

def broken : Life ℕ := atWork.fail atWork.inst "unpack requires a bytes-like object"

theorem atWork_breaks (driver : Driver) :
    Step driver atWork (.fail none "unpack requires a bytes-like object") broken :=
  .fail ⟨.inl rfl, rfl⟩

theorem atWork_disorderly (driver : Driver) :
    ¬atWork.Orderly driver (.fail none "unpack requires a bytes-like object") := by
  intro horderly
  rcases horderly with hclosing | hraises
  · cases hclosing
  · exact hraises atWork.inst ⟨.inl rfl, rfl⟩ rfl

theorem ends_iff_orderly_broken : atWork.reader ≠ .joining ∧
    ∃ L, (machine .trio).Leads broken L ∧ L.reader = .joining ∧
      ∀ L', (machine .trio).Leads L L' → L'.reader = .joining := by
  have horderly : fresh.Orderly .trio .start := trivial
  exact ⟨(ends_iff_orderly.1 atWork (atWork_reached .trio horderly)).1,
    ends_iff_orderly.2 atWork _ broken (atWork_reached .trio trivial) (atWork_disorderly .trio)
      (atWork_breaks .trio)⟩

/-- A reader whose stream broke waits for itself. -/
theorem joining_reachable : ∃ L : Life ℕ, (machine .trio).Reachable L ∧ L.reader = .joining ∧
    ∀ L', (machine .trio).Leads L L' → L'.reader = .joining := by
  have hreachable : (machine .trio).Reachable broken :=
    .step (atWork_reached .trio trivial) trivial (atWork_breaks .trio)
  have hclosed : Step .trio broken .readerClosed { broken with reader := .joining } := .readerClosed rfl
  exact ⟨_, .step hreachable trivial hclosed, rfl, fun _ hleads => joining_forever rfl hleads⟩

end Life
end RethinkDB.Async
