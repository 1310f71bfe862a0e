import RethinkDB.Async.Instance
import RethinkDB.Net.Demux

/-! `fetch_next` of the asyncio, Trio and Tornado cursors: one cursor whose responses, errors and calls
come in any order, each call running until it waits for the next response. -/
namespace RethinkDB.Async
open RethinkDB.Lib Net Prog

variable {V : Type}

namespace Instance

/-- `_maybe_fetch_batch`. What Tornado's `_continue` raises stays in a future. -/
def askBatch (driver : Driver) (id : ℕ) : Act V Unit := do
  let c ← cursor id
  if c.WantsBatch then
    modifyCursor id Cursor.request
    if ← read Instance.isOpen then
      modify fun s => { s with unsent := s.unsent ++ [c.query.token] }
    else if driver = .tornado then pure ()
    else throw (.driver "Connection is closed.")

/-- `Cursor._extend`. -/
def receive (driver : Driver) (id : ℕ) (resBuf : Bytes) : Act V Unit := do
  modifyCursor id Cursor.answered
  askBatch driver id
  let c ← cursor id
  let res ← ofExcept (Response.ofJson c.query.token resBuf c.jsonDecoder)
  extendInternal id res

/-- A turn of `fetch_next`; `none` is a turn that ends in waiting for `new_response`. -/
def fetchNext (driver : Driver) (id : ℕ) : Act V (Option Bool) := do
  let c ← cursor id
  match driver with
  | .trio =>
    if c.items = [] then
      askBatch .trio id
      match (← cursor id).error with
      | some e => throw e
      | none => return none
    else return some true
  | .asyncio =>
    if c.items = [] ∧ c.error = none then
      askBatch .asyncio id
      match (← cursor id).error with
      | some e => throw e
      | none => return none
    else return some (c.items ≠ [] || !(c.error matches some .cursorEmpty))
  | .tornado =>
    if c.items = [] ∧ c.error = none then
      askBatch .tornado id
      return none
    else return some (c.items ≠ [] || !(c.error matches some .cursorEmpty))

/-- A turn of `_get_next`. The items are decoded data, so the Trio cursor finds no exception in them. -/
def getNext (driver : Driver) (id : ℕ) : Act V (Option V) := do
  let c ← cursor id
  match c.items with
  | v :: vs => do
    modifyCursor id fun c => { c with items := vs }
    return some v
  | [] => do
    askBatch driver id
    match (← cursor id).error with
    | some e => throw e
    | none => return none

end Instance

inductive CallKind where
  | fetchNext | next
  deriving Repr, DecidableEq

/-- `woken` once a response has come in; the call takes its turn later. -/
inductive CallStatus where
  | waiting | woken | ended
  deriving Repr, DecidableEq

/-- A `fetch_next` that is over, and what it left. -/
structure Fetched (V : Type) where
  call : ℕ
  result : Except (Exn V) Bool
  inst : Instance V

structure Consumption (V : Type) where
  inst : Instance V
  calls : List (CallKind × CallStatus)
  fetched : List (Fetched V)

inductive CursorEvent where
  /-- A response for the cursor. -/
  | extend (buf : Bytes)
  /-- `_error`: the connection is closed. -/
  | fail (message : String)
  | close
  /-- The connection is gone, which nobody has noticed. -/
  | lost
  | call (kind : CallKind)
  /-- A call that was woken takes its turn. -/
  | resume (call : ℕ)

namespace Consumption
open Instance

def turn (driver : Driver) (id : ℕ) (kind : CallKind) (i : ℕ) (L : Consumption V) : Consumption V :=
  match kind with
  | .fetchNext => match fetchNext driver id L.inst with
    | (.ok none, inst) => { L with inst, calls := L.calls.set i (.fetchNext, .waiting) }
    | (.ok (some b), inst) => { L with
        inst
        calls := L.calls.set i (.fetchNext, .ended)
        fetched := L.fetched ++ [⟨i, .ok b, inst⟩] }
    | (.error e, inst) => { L with
        inst
        calls := L.calls.set i (.fetchNext, .ended)
        fetched := L.fetched ++ [⟨i, .error e, inst⟩] }
    | (.running, inst) => { L with inst }
  | .next => match getNext driver id L.inst with
    | (.ok none, inst) => { L with inst, calls := L.calls.set i (.next, .waiting) }
    | (_, inst) => { L with inst, calls := L.calls.set i (.next, .ended) }

/-- `new_response.set_result(True)`. -/
def wake (calls : List (CallKind × CallStatus)) : List (CallKind × CallStatus) :=
  calls.map fun c => if c.2 = .waiting then (c.1, .woken) else c

/-- `_extend`, which wakes nobody where it raises. -/
def extend (driver : Driver) (id : ℕ) (buf : Bytes) (L : Consumption V) : Consumption V :=
  match receive driver id buf L.inst with
  | (.ok (), inst) => { L with inst, calls := wake L.calls }
  | (_, inst) => { L with inst }

def step (driver : Driver) (id : ℕ) (L : Consumption V) : CursorEvent → Consumption V
  | .extend buf => L.extend driver id buf
  | .fail message => match L.inst.cursors[id]? with
    | some c =>
      if c.error = none then
        let failed := (modifyCursor id (Cursor.fail (.runtime message c.query.term)) L.inst).2
        extend driver id L.inst.numbering.dummyResponse { L with inst := failed }
      else L
    | none => L
  | .close => { L with inst := (closeCursor id L.inst).2 }
  | .lost => { L with inst := { L.inst with isOpen := false } }
  | .call kind => turn driver id kind L.calls.length { L with calls := L.calls ++ [(kind, .woken)] }
  | .resume i => match L.calls[i]? with
    | some (kind, .woken) => L.turn driver id kind i
    | _ => L

def run (driver : Driver) (id : ℕ) (events : List CursorEvent) (L : Consumption V) : Consumption V :=
  events.foldl (step driver id) L

end Consumption

/-! ### What `fetch_next` promises -/

namespace Fetched
open Instance

/-- What a `next` that follows at once comes to. -/
def nextOutcome (driver : Driver) (id : ℕ) (f : Fetched V) : Outcome (Exn V) (Option V) :=
  (getNext driver id f.inst).1

/-- The stream is complete and all of it consumed. -/
def AtEnd (id : ℕ) (f : Fetched V) : Prop :=
  ∃ c, f.inst.cursors[id]? = some c ∧ c.items = [] ∧ c.error = some .cursorEmpty

structure Right (driver : Driver) (id : ℕ) (f : Fetched V) : Prop where
  more : f.result = .ok true ↔ (∃ v, f.nextOutcome driver id = .ok (some v)) ∨
    ∃ e, e ≠ .cursorEmpty ∧ f.nextOutcome driver id = .error e
  done : f.result = .ok false ↔ f.AtEnd id
  quiet : f.result ≠ .error .cursorEmpty

end Fetched

namespace Consumption
open Instance

/-- The cursor has an item, or no error. -/
def Live (id : ℕ) (s : Instance V) : Prop :=
  ∃ c, s.cursors[id]? = some c ∧ (c.items ≠ [] ∨ c.error = none)

/-- No batch is asked for on a connection that is gone. -/
def Connected (id : ℕ) (s : Instance V) : Prop :=
  ∀ c, s.cursors[id]? = some c → c.WantsBatch → s.isOpen = true

/-- A `fetch_next` that takes its turn finds an item, or no error. -/
def Allows (id : ℕ) (L : Consumption V) : CursorEvent → Prop
  | .call .fetchNext => Live id L.inst
  | .resume i => L.calls[i]? = some (.fetchNext, .woken) → Live id L.inst
  | _ => True

/-- An event that asks for no batch on a connection that is gone. -/
def Wired (id : ℕ) (L : Consumption V) : CursorEvent → Prop
  | .extend _ => Connected id (modifyCursor id Cursor.answered L.inst).2
  | .call _ | .resume _ => Connected id L.inst
  | .fail _ | .close | .lost => True

/-- `ok` holds of every event of the run, where it comes. -/
def Throughout (ok : Consumption V → CursorEvent → Prop) (id : ℕ) :
    List CursorEvent → Consumption V → Prop
  | [], _ => True
  | e :: events, L => ok L e ∧ Throughout ok id events (step .trio id L e)

/-! ### One turn in three drivers -/

variable {id : ℕ} {s : Instance V} {c : Cursor V} {L : Consumption V} {driver : Driver}

theorem cursor_none (hc : s.cursors[id]? = none) : cursor id s = (.error .attribute, s) := by
  simp [cursor, hc]

/-- Only the Tornado driver does not hear that the connection is gone. -/
theorem askBatch_heard (h : driver = .tornado → Connected id s) :
    askBatch driver id s = maybeFetchBatch id s := by
  by_cases htornado : driver = .tornado
  · unfold askBatch maybeFetchBatch
    cases hc : s.cursors[id]? with
    | none => rw [bind_of_error (cursor_none hc), bind_of_error (cursor_none hc)]
    | some c =>
      rw [bind_of_ok (cursor_of hc), bind_of_ok (cursor_of hc)]
      by_cases hwants : c.WantsBatch
      · simp only [if_pos hwants]
        have hrequest : modifyCursor id Cursor.request s =
            (.ok (), (modifyCursor id Cursor.request s).2) := rfl
        have hread : Prog.read Instance.isOpen (modifyCursor id Cursor.request s).2 =
            ((.ok true, (modifyCursor id Cursor.request s).2) : Outcome (Exn V) Bool × Instance V) := by
          rw [← h htornado c hc hwants]
          rfl
        rw [bind_of_ok hrequest, bind_of_ok hrequest, bind_of_ok hread, bind_of_ok hread]
        rfl
      · simp only [if_neg hwants]
  · simp [askBatch, maybeFetchBatch, htornado]

theorem askBatch_trio (id : ℕ) (s : Instance V) : askBatch .trio id s = maybeFetchBatch id s :=
  askBatch_heard (by simp)

/-- The two ways of `_maybe_fetch_batch`. -/
theorem maybeFetchBatch_cases (hc : s.cursors[id]? = some c) :
    (∃ s' c', maybeFetchBatch id s = (.ok (), s') ∧ s'.cursors[id]? = some c' ∧
      c'.error = c.error) ∨
    c.WantsBatch ∧ s.isOpen = false ∧
      ∃ s', maybeFetchBatch id s = (.error (.driver "Connection is closed."), s') ∧
        s'.cursors[id]? = some c.request := by
  have hlt := (List.getElem?_eq_some_iff.mp hc).1
  cases hopen : s.isOpen with
  | true =>
    rw [maybeFetchBatch_of hopen hc]
    exact Or.inl ⟨_, c.fetch, rfl, by simp [hlt], c.fetch_error⟩
  | false =>
    unfold maybeFetchBatch
    rw [bind_of_ok (cursor_of hc)]
    by_cases hwants : c.WantsBatch
    · have hread : Prog.read Instance.isOpen { s with cursors := s.cursors.set id c.request } =
          ((.ok false, { s with cursors := s.cursors.set id c.request }) :
            Outcome (Exn V) Bool × Instance V) := by
        rw [← hopen]
        rfl
      simp only [if_pos hwants]
      rw [bind_of_ok (modifyCursor_of hc Cursor.request), bind_of_ok hread]
      exact Or.inr ⟨hwants, trivial, _, rfl, by simp [hlt]⟩
    · simp only [if_neg hwants]
      exact Or.inl ⟨s, c, rfl, hc, rfl⟩

theorem receive_agrees (h : driver = .tornado → Connected id (modifyCursor id Cursor.answered s).2)
    (buf : Bytes) : receive driver id buf s = receive .trio id buf s := by
  have hanswered : modifyCursor id Cursor.answered s =
      (.ok (), (modifyCursor id Cursor.answered s).2) := rfl
  unfold receive
  rw [bind_of_ok hanswered, bind_of_ok hanswered]
  change after _ (askBatch driver id _) = after _ (askBatch .trio id _)
  rw [askBatch_heard h, askBatch_trio]

theorem getNext_agrees (h : driver = .tornado → Connected id s) :
    getNext driver id s = getNext .trio id s := by
  unfold getNext
  cases hc : s.cursors[id]? with
  | none => rw [bind_of_error (cursor_none hc), bind_of_error (cursor_none hc)]
  | some c =>
    rw [bind_of_ok (cursor_of hc), bind_of_ok (cursor_of hc)]
    cases c.items with
    | cons v vs => rfl
    | nil =>
      change after _ (askBatch driver id s) = after _ (askBatch .trio id s)
      rw [askBatch_heard h, askBatch_trio]

/-- A turn that finds an item. -/
theorem fetchNext_items (hc : s.cursors[id]? = some c) (hitems : c.items ≠ []) (driver : Driver) :
    fetchNext driver id s = (.ok (some true), s) := by
  unfold fetchNext
  rw [bind_of_ok (cursor_of hc)]
  cases driver <;> simp [hitems] <;> rfl

/-- A turn that finds neither an item nor an error. -/
theorem fetchNext_empty (hc : s.cursors[id]? = some c) (hitems : c.items = [])
    (herror : c.error = none) (h : driver = .tornado → Connected id s) :
    fetchNext driver id s = (maybeFetchBatch id >>= fun _ => pure none) s := by
  have hask := askBatch_heard h
  unfold fetchNext
  rw [bind_of_ok (cursor_of hc)]
  rcases maybeFetchBatch_cases hc with ⟨s', c', hok, hc', herror'⟩ | ⟨-, -, s', hraised, -⟩
  · rw [bind_of_ok hok]
    rw [hok] at hask
    cases driver with
    | trio | asyncio =>
      simp only [hitems, herror, and_self, if_true]
      rw [bind_of_ok hask, bind_of_ok (cursor_of hc')]
      simp only [herror', herror]
    | tornado =>
      simp only [hitems, herror, and_self, if_true]
      rw [bind_of_ok hask]
  · rw [bind_of_error hraised]
    rw [hraised] at hask
    cases driver with
    | trio | asyncio | tornado =>
      simp only [hitems, herror, and_self, if_true]
      rw [bind_of_error hask]

/-- A turn of the Trio cursor that finds an error and no item. -/
theorem fetchNext_spent {e : Exn V} (hc : s.cursors[id]? = some c) (hitems : c.items = [])
    (herror : c.error = some e) : fetchNext .trio id s = (.error e, s) := by
  have hwants : ¬c.WantsBatch := by simp [Cursor.WantsBatch, herror]
  have hask : askBatch .trio id s = (.ok (), s) := by
    rw [askBatch_trio]
    unfold maybeFetchBatch
    rw [bind_of_ok (cursor_of hc)]
    simp only [if_neg hwants]
    rfl
  unfold fetchNext
  rw [bind_of_ok (cursor_of hc)]
  simp only [hitems, if_true]
  rw [bind_of_ok hask, bind_of_ok (cursor_of hc)]
  simp only [herror]
  rfl

theorem fetchNext_agrees (hlive : Live id s) (h : driver = .tornado → Connected id s) :
    fetchNext driver id s = fetchNext .trio id s := by
  obtain ⟨c, hc, hlive⟩ := hlive
  by_cases hitems : c.items = []
  · have herror : c.error = none := hlive.resolve_left fun hne => hne hitems
    rw [fetchNext_empty hc hitems herror h, fetchNext_empty hc hitems herror (by simp)]
  · rw [fetchNext_items hc hitems, fetchNext_items hc hitems]

/-! ### One run in three drivers -/

theorem turn_agrees {kind : CallKind} (hlive : kind = .fetchNext → Live id L.inst)
    (h : driver = .tornado → Connected id L.inst) (i : ℕ) :
    L.turn driver id kind i = L.turn .trio id kind i := by
  cases kind with
  | fetchNext => simp only [turn, fetchNext_agrees (hlive rfl) h]
  | next => simp only [turn, getNext_agrees h]

theorem extend_agrees
    (h : driver = .tornado → Connected id (modifyCursor id Cursor.answered L.inst).2) (buf : Bytes) :
    L.extend driver id buf = L.extend .trio id buf := by
  simp only [extend, receive_agrees h buf]

/-- A cursor with an error asks for nothing. -/
theorem connected_failed (hc : s.cursors[id]? = some c) (herror : c.error ≠ none) :
    Connected id s := by
  intro c' hc' hwants
  cases hc.symm.trans hc'
  exact absurd hwants.1 herror

theorem step_agrees {e : CursorEvent} (hallows : Allows id L e)
    (h : driver = .tornado → Wired id L e) : step driver id L e = step .trio id L e := by
  cases e with
  | extend buf => exact extend_agrees h buf
  | fail message =>
    simp only [step]
    cases hc : L.inst.cursors[id]? with
    | none => rfl
    | some c =>
      dsimp only
      split_ifs with herror
      · apply extend_agrees
        intro _
        apply connected_failed (c := (c.fail (.runtime message c.query.term)).answered)
        · simp [modifyCursor, Prog.modify, hc]
        · simp [Cursor.fail, Cursor.answered]
      · rfl
  | close | lost => rfl
  | call kind =>
    apply turn_agrees (L := { L with calls := L.calls ++ [(kind, .woken)] })
    · rintro rfl
      exact hallows
    · exact h
  | resume i =>
    simp only [step]
    cases hcall : L.calls[i]? with
    | none => rfl
    | some call =>
      obtain ⟨kind, status⟩ := call
      cases status with
      | woken =>
        apply turn_agrees
        · rintro rfl
          exact hallows hcall
        · exact h
      | waiting | ended => rfl

/-- The induction is on the events. -/
theorem run_agrees {events : List CursorEvent} (hsteady : Throughout (Allows id) id events L)
    (h : driver = .tornado → Throughout (Wired id) id events L) :
    run driver id events L = run .trio id events L := by
  induction events generalizing L with
  | nil => rfl
  | cons e events ih =>
    change run driver id events (step driver id L e) = run .trio id events (step .trio id L e)
    rw [step_agrees hsteady.1 fun ht => (h ht).1]
    exact ih hsteady.2 fun ht => (h ht).2

/-! ### What a run says -/

theorem getNext_items {v : V} {vs : List V} (hc : s.cursors[id]? = some c) (hitems : c.items = v :: vs) :
    (getNext .trio id s).1 = .ok (some v) := by
  unfold getNext
  rw [bind_of_ok (cursor_of hc)]
  simp only [hitems]
  rfl

/-- A `next` that has to wait, its batch having been asked for. -/
theorem getNext_waits (hc : s.cursors[id]? = some c) (hitems : c.items = []) (herror : c.error = none)
    (hwants : ¬c.WantsBatch) : (getNext .trio id s).1 = .ok none := by
  have hask : askBatch .trio id s = (.ok (), s) := by
    rw [askBatch_trio]
    unfold maybeFetchBatch
    rw [bind_of_ok (cursor_of hc)]
    simp only [if_neg hwants]
    rfl
  unfold getNext
  rw [bind_of_ok (cursor_of hc)]
  simp only [hitems]
  rw [bind_of_ok hask, bind_of_ok (cursor_of hc)]
  simp only [herror]
  rfl

/-- To say that there is an item is right where there is one. -/
theorem right_true {f : Fetched V} (hresult : f.result = .ok true) (hc : f.inst.cursors[id]? = some c)
    (hitems : c.items ≠ []) : f.Right .trio id where
  more := by
    obtain ⟨v, vs, hcons⟩ := List.exists_cons_of_ne_nil hitems
    exact iff_of_true hresult (Or.inl ⟨v, getNext_items hc hcons⟩)
  done := by
    apply iff_of_false
    · rw [hresult]
      simp
    · rintro ⟨c', hc', hnil, -⟩
      cases hc.symm.trans hc'
      exact hitems hnil
  quiet := by
    rw [hresult]
    simp

/-- To raise is right where a `next` would wait. -/
theorem right_refused {f : Fetched V} {text : String} (hresult : f.result = .error (.driver text))
    (hc : f.inst.cursors[id]? = some c) (hitems : c.items = []) (herror : c.error = none)
    (hwants : ¬c.WantsBatch) : f.Right .trio id where
  more := by
    have hnext : f.nextOutcome .trio id = .ok none := getNext_waits hc hitems herror hwants
    rw [hresult, hnext]
    simp
  done := by
    apply iff_of_false
    · rw [hresult]
      simp
    · rintro ⟨c', hc', -, hempty⟩
      cases hc.symm.trans hc'
      rw [herror] at hempty
      cases hempty
  quiet := by
    rw [hresult]
    simp

def AllRight (id : ℕ) (L : Consumption V) : Prop := ∀ f ∈ L.fetched, f.Right .trio id

theorem AllRight.fetched (h : AllRight id L) {f : Fetched V} (hf : f.Right .trio id) :
    ∀ g ∈ L.fetched ++ [f], g.Right .trio id := by
  intro g hg
  rcases List.mem_append.mp hg with hg | hg
  · exact h g hg
  · rw [List.mem_singleton.mp hg]
    exact hf

theorem AllRight.turn (h : AllRight id L) {kind : CallKind}
    (hlive : kind = .fetchNext → Live id L.inst) (i : ℕ) : AllRight id (L.turn .trio id kind i) := by
  cases kind with
  | fetchNext =>
    obtain ⟨c, hc, hlive⟩ := hlive rfl
    by_cases hitems : c.items = []
    · have herror : c.error = none := hlive.resolve_left fun hne => hne hitems
      have hfetch : fetchNext .trio id L.inst = (maybeFetchBatch id >>= fun _ => pure none) L.inst :=
        fetchNext_empty hc hitems herror (by simp)
      rcases maybeFetchBatch_cases hc with ⟨s', c', hok, -, -⟩ | ⟨hwants, -, s', hraised, hc'⟩
      · rw [bind_of_ok hok] at hfetch
        simp only [Consumption.turn, hfetch]
        exact h
      · rw [bind_of_error hraised] at hfetch
        simp only [Consumption.turn, hfetch]
        have hasked : ¬c.request.WantsBatch := by
          simp [Cursor.WantsBatch, Cursor.request, hwants.2.2]
        exact h.fetched (right_refused rfl hc' hitems herror hasked)
    · simp only [Consumption.turn, fetchNext_items hc hitems]
      exact h.fetched (right_true rfl hc hitems)
  | next =>
    simp only [Consumption.turn]
    split <;> exact h

theorem AllRight.extend (h : AllRight id L) (buf : Bytes) : AllRight id (L.extend .trio id buf) := by
  simp only [Consumption.extend]
  split <;> exact h

theorem AllRight.step (h : AllRight id L) {e : CursorEvent} (hallows : Allows id L e) :
    AllRight id (L.step .trio id e) := by
  cases e with
  | extend buf => exact h.extend buf
  | fail message =>
    simp only [Consumption.step]
    cases L.inst.cursors[id]? with
    | none => exact h
    | some c =>
      dsimp only
      split_ifs
      · apply AllRight.extend
        exact h
      · exact h
  | close | lost => exact h
  | call kind =>
    have hcalled : AllRight id { L with calls := L.calls ++ [(kind, .woken)] } := h
    apply hcalled.turn
    rintro rfl
    exact hallows
  | resume i =>
    simp only [Consumption.step]
    cases hcall : L.calls[i]? with
    | none => exact h
    | some call =>
      obtain ⟨kind, status⟩ := call
      cases status with
      | woken =>
        apply h.turn
        rintro rfl
        exact hallows hcall
      | waiting | ended => exact h

/-- The induction is on the events. -/
theorem AllRight.run {events : List CursorEvent} (h : AllRight id L)
    (hsteady : Throughout (Allows id) id events L) : AllRight id (L.run .trio id events) := by
  induction events generalizing L with
  | nil => exact h
  | cons e events ih => exact ih (h.step hsteady.1) hsteady.2

/-- Where no `fetch_next` comes to an exhausted cursor, each of them is right and as in the asyncio driver,
and as in the Tornado driver where no batch is asked for on a connection that is gone. -/
theorem fetchNext_right {events : List CursorEvent} (hfresh : L.fetched = [])
    (h : Throughout (Allows id) id events L) :
    (∀ f ∈ (L.run .trio id events).fetched, f.Right .trio id) ∧
      (L.run .asyncio id events).fetched = (L.run .trio id events).fetched ∧
      (Throughout (Wired id) id events L →
        (L.run .tornado id events).fetched = (L.run .trio id events).fetched) := by
  refine ⟨?_, ?_, ?_⟩
  · have hstart : AllRight id L := by
      intro f hf
      rw [hfresh] at hf
      cases hf
    exact hstart.run h
  · rw [run_agrees h (by simp)]
  · intro hwired
    rw [run_agrees h fun _ => hwired]

def streaming : Consumption ℕ where
  inst :=
    { numbering := ⟨fun _ => [], nil_length_lt, [1]⟩
      jsonDecoder := Net.Driver.byteDecoder
      isOpen := true
      closing := false
      userQueries := ∅
      cursorCache := AList.insert 0 0 ∅
      futures := []
      cursors := [⟨plainQuery 0, [], 1, 1, none, Net.Driver.byteDecoder⟩]
      unsent := [] }
  calls := []
  fetched := []

/-- A `fetch_next` that waits for the last batch, and the `next` after it. -/
theorem fetchNext_right_last :
    (∀ f ∈ (run .trio 0 [.call .fetchNext, .extend [1, 5], .resume 0, .call .next] streaming).fetched,
      f.Right .trio 0) ∧
      (run .asyncio 0 [.call .fetchNext, .extend [1, 5], .resume 0, .call .next] streaming).fetched =
        (run .trio 0 [.call .fetchNext, .extend [1, 5], .resume 0, .call .next] streaming).fetched ∧
      (run .tornado 0 [.call .fetchNext, .extend [1, 5], .resume 0, .call .next] streaming).fetched =
        (run .trio 0 [.call .fetchNext, .extend [1, 5], .resume 0, .call .next] streaming).fetched := by
  have hsteady : Throughout (Allows 0) 0 [.call .fetchNext, .extend [1, 5], .resume 0, .call .next]
      streaming :=
    ⟨⟨_, rfl, Or.inr rfl⟩, trivial, fun _ => ⟨_, rfl, Or.inl (by decide)⟩, trivial, trivial⟩
  obtain ⟨hright, hasyncio, htornado⟩ := fetchNext_right rfl hsteady
  refine ⟨hright, hasyncio, htornado ?_⟩
  exact ⟨fun _ _ _ => rfl, fun _ _ _ => rfl, fun _ _ _ => rfl, fun _ _ _ => rfl, trivial⟩

/-- After the last item `fetch_next` of the Trio cursor raises, where that of the asyncio cursor returns. -/
theorem fetchNext_raises_at_end :
    (¬∀ (events : List CursorEvent) (L : Consumption ℕ), L.fetched = [] →
      ∀ f ∈ (run .trio 0 events L).fetched, f.Right .trio 0) ∧
    (run .asyncio 0 [.extend [1, 5], .call .next, .call .fetchNext] streaming).fetched.map
      Fetched.result = [.ok false] := by
  constructor
  · intro h
    have hfetched := h [.extend [1, 5], .call .next, .call .fetchNext] streaming rfl
    have hlast := hfetched _ (List.mem_iff_getElem?.mpr ⟨0, rfl⟩)
    exact hlast.quiet rfl
  · rfl

end Consumption
end RethinkDB.Async
