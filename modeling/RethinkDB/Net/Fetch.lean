import RethinkDB.Lib.Machine
import RethinkDB.Net.Driver

/-! When a cursor asks for its next batch. The cursor is taken by itself: its steps are the
responses it processes, whoever reads them, and the turns of `_get_next`. -/
namespace RethinkDB.Net
open RethinkDB.Lib

variable {V : Type}

namespace Cursor

/-- `_maybe_fetch_batch` on an open connection. -/
def fetch (c : Cursor V) : Cursor V := if c.WantsBatch then c.request else c

/-- `_extend`, for a response that decodes. -/
def respond (res : Response V) (c : Cursor V) : Cursor V :=
  match c.answered.fetch.store res with
  | .ok c => c
  | .error _ => { c.answered.fetch with threshold := res.data.length }

/-- `__init__` with its first response. -/
def opened (query : Query V) (decoder : Decoder V) (first : Response V) : Cursor V :=
  match (fetch ⟨query, [], 0, 1, none, decoder⟩).store first with
  | .ok c => c
  | .error _ => fetch ⟨query, [], 0, first.data.length, none, decoder⟩

/-- One turn of `_get_next` up to where it blocks: an item goes, or a batch is asked for. -/
def turn (c : Cursor V) : Cursor V :=
  match c.items with
  | _ :: vs => { c with items := vs }
  | [] => c.fetch

end Cursor

/-- Asking for more and storing a response do not interfere. -/
theorem Cursor.store_request (c : Cursor V) (res : Response V) :
    c.request.store res = (c.store res).map request := by
  cases c with | mk query items outstanding threshold error decoder =>
  unfold store request
  cases error with
  | some e => rfl
  | none =>
    dsimp only
    split
    · rfl
    · rfl
    · cases res.makeError query <;> rfl

/-- What storing may change of a cursor. -/
theorem Cursor.store_shape {c c' : Cursor V} {res : Response V} (h : c.store res = .ok c') :
    ∃ items threshold error, c' = { c with items, threshold, error } := by
  cases c with | mk query items outstanding threshold error decoder =>
  unfold store at h
  cases error with
  | some e =>
    cases h
    exact ⟨_, _, _, rfl⟩
  | none =>
    dsimp only at h
    split at h
    · cases h
      exact ⟨_, _, _, rfl⟩
    · cases h
      exact ⟨_, _, _, rfl⟩
    · cases he : res.makeError query with
      | error e =>
        rw [he] at h
        cases h
      | ok e =>
        rw [he] at h
        cases h
        exact ⟨_, _, _, rfl⟩

/-- Storing leaves the query and the count alone. -/
theorem Cursor.store_keeps {c c' : Cursor V} {res : Response V} (h : c.store res = .ok c') :
    c'.query = c.query ∧ c'.outstandingRequests = c.outstandingRequests := by
  obtain ⟨items, threshold, error, rfl⟩ := store_shape h
  exact ⟨rfl, rfl⟩

/-- An error stays. -/
theorem Cursor.store_failed {c c' : Cursor V} {res : Response V} (h : c.store res = .ok c')
    (hc : c.error ≠ none) : c'.error = c.error := by
  unfold store at h
  cases he : c.error with
  | none => exact absurd he hc
  | some e =>
    simp only [he] at h
    cases h
    rfl

/-- All that `make_error` can raise is the `IndexError` of `data[0]`. -/
theorem Response.makeError_index {res : Response V} {query : Query V} {e : Exn V}
    (h : res.makeError query = .error e) : e = .index := by
  unfold makeError at h
  split at h
  all_goals first
    | cases h
    | split at h <;> cases h <;> rfl

/-- All that `_extend_internal` can raise is the `IndexError` of `make_error`. -/
theorem Cursor.store_index {c : Cursor V} {res : Response V} {e : Exn V} (h : c.store res = .error e) :
    e = .index := by
  cases c with | mk query items outstanding threshold error decoder =>
  unfold store at h
  cases error with
  | some e => cases h
  | none =>
    dsimp only at h
    split at h
    · cases h
    · cases h
    · cases he : res.makeError query with
      | ok e' =>
        rw [he] at h
        cases h
      | error e' =>
        rw [he] at h
        cases h
        exact res.makeError_index he

theorem modify_eq_set {α : Type} {l : List α} {i : ℕ} {a : α} (h : l[i]? = some a) (f : α → α) :
    l.modify i f = l.set i (f a) := by
  apply List.ext_getElem?
  intro j
  rw [List.getElem?_modify, List.getElem?_set]
  by_cases hj : i = j
  · subst hj
    obtain ⟨hlt, rfl⟩ := List.getElem?_eq_some_iff.mp h
    simp [hlt]
  · simp [hj]

/-- `SUCCESS_PARTIAL` or `SUCCESS_SEQUENCE`. -/
def Response.IsBatch (res : Response V) : Prop :=
  res.type = .successPartial ∨ res.type = .successSequence

instance (res : Response V) : Decidable res.IsBatch := by
  unfold Response.IsBatch
  infer_instance

inductive CursorStep (V : Type) where
  | respond (res : Response V)
  | next

/-- A stream of batches in any interleaving with `next`. Only a request gets an answer. -/
def cursorMachine (V : Type) : Machine (Cursor V) (CursorStep V) where
  init c := ∃ query decoder first, first.IsBatch ∧ c = Cursor.opened query decoder first
  step c i c' := match i with
    | .respond res => res.IsBatch ∧ 0 < c.outstandingRequests ∧ c' = c.respond res
    | .next => c' = c.turn

/-- With nothing buffered and no error, `_maybe_fetch_batch` leaves a request in flight. -/
def Cursor.Fed (c : Cursor V) : Prop :=
  c.items = [] → c.error = none → 1 ≤ c.fetch.outstandingRequests

/-- The step that starves a cursor: an empty `SUCCESS_PARTIAL` while the buffer still holds
as many items as the batch before it brought, so that neither this response nor any later
`next` asks for more. -/
def Starves (c : Cursor V) : CursorStep V → Prop
  | .respond res => c.error = none ∧ res.type = .successPartial ∧ res.data = [] ∧
      c.threshold ≤ c.items.length
  | .next => False

namespace Cursor

@[simp] theorem fetch_items (c : Cursor V) : c.fetch.items = c.items := by
  unfold fetch request; split <;> rfl

@[simp] theorem fetch_error (c : Cursor V) : c.fetch.error = c.error := by
  unfold fetch request; split <;> rfl

@[simp] theorem fetch_threshold (c : Cursor V) : c.fetch.threshold = c.threshold := by
  unfold fetch request; split <;> rfl

theorem fetch_outstanding (c : Cursor V) :
    c.fetch.outstandingRequests = if c.WantsBatch then 1 else c.outstandingRequests := by
  unfold fetch
  split_ifs with h
  · simp [request, h.2.2]
  · rfl

/-- What is stored of a batch: nothing but its size once the cursor has an error. -/
def stored (res : Response V) (c : Cursor V) : Cursor V :=
  { c with
    threshold := res.data.length
    items := if c.error = none then c.items ++ res.data else c.items
    error := if c.error = none ∧ res.type = .successSequence then some .cursorEmpty else c.error }

theorem store_batch {res : Response V} (hres : res.IsBatch) (c : Cursor V) :
    c.store res = .ok (c.stored res) := by
  unfold store stored
  cases c with | mk query items outstanding threshold error decoder =>
  cases error with
  | some e => simp
  | none => rcases hres with h | h <;> simp [h]

theorem respond_batch {res : Response V} (hres : res.IsBatch) (c : Cursor V) :
    c.respond res = c.answered.fetch.stored res := by
  rw [respond, store_batch hres]

theorem opened_batch {first : Response V} (hfirst : first.IsBatch) (query : Query V)
    (decoder : Decoder V) : opened query decoder first =
      stored first ⟨query, [], 1, 1, none, decoder⟩ := by
  have hfetch : fetch ⟨query, [], 0, 1, none, decoder⟩ = ⟨query, [], 1, 1, none, decoder⟩ := by
    rw [fetch, if_pos ⟨rfl, Nat.zero_lt_one, rfl⟩]
    rfl
  rw [opened, store_batch hfirst, hfetch]

end Cursor

/-- Before an error at most one request is ever in flight. -/
theorem outstanding_bounds {ok : Cursor V → CursorStep V → Prop} {c : Cursor V}
    (h : (cursorMachine V).ReachedBy ok c) :
    0 ≤ c.outstandingRequests ∧ (c.error = none → c.outstandingRequests ≤ 1) := by
  refine h.invariant (I := fun c => 0 ≤ c.outstandingRequests ∧
    (c.error = none → c.outstandingRequests ≤ 1)) ?_ ?_
  · rintro _ ⟨query, decoder, first, hfirst, rfl⟩
    rw [Cursor.opened_batch hfirst]
    simp [Cursor.stored]
  · rintro c (res | _) c' - ⟨hnn, hle⟩ - hstep
    · obtain ⟨hres, hpos, rfl⟩ := hstep
      rw [Cursor.respond_batch hres]
      simp only [Cursor.stored, Cursor.fetch_outstanding, Cursor.fetch_error]
      constructor
      · split_ifs <;> simp [Cursor.answered]; omega
      · intro herr
        have hc : c.error = none := by
          by_contra hne
          simp [Cursor.answered, hne] at herr
        have := hle hc
        split_ifs <;> simp [Cursor.answered]; omega
    · change c' = c.turn at hstep
      subst hstep
      unfold Cursor.turn
      split
      · exact ⟨hnn, hle⟩
      · simp only [Cursor.fetch_outstanding, Cursor.fetch_error]
        exact ⟨by split_ifs <;> omega, fun herr => by have := hle herr; split_ifs <;> omega⟩

/-- Either a request is in flight or the threshold lets an empty buffer send one. -/
def Cursor.Alive (c : Cursor V) : Prop :=
  c.error = none → 0 < c.outstandingRequests ∨ 0 < c.threshold

theorem Cursor.Alive.fed {c : Cursor V} (h : c.Alive) (hnn : 0 ≤ c.outstandingRequests) : c.Fed := by
  intro hitems herr
  rw [Cursor.fetch_outstanding]
  split_ifs with hwants
  · omega
  · rcases h herr with hpos | hthreshold
    · omega
    · have hne : c.outstandingRequests ≠ 0 := fun h0 =>
        hwants ⟨herr, by simpa [hitems] using hthreshold, h0⟩
      omega

theorem Cursor.Alive.respond {c : Cursor V} {res : Response V} (hres : res.IsBatch)
    (hpos : 0 < c.outstandingRequests) (hok : ¬Starves c (.respond res)) : (c.respond res).Alive := by
  rw [Cursor.respond_batch hres]
  intro herr
  simp only [Cursor.stored, Cursor.fetch_error, Cursor.fetch_outstanding]
  by_cases hdata : res.data = []
  · left
    -- the stream goes on, so the buffer must have run below the last batch's size
    have hc : c.error = none := by
      by_contra hne
      simp [Cursor.stored, Cursor.answered, hne] at herr
    have hpartial : res.type = .successPartial := by
      rcases hres with h | h
      · exact h
      · simp [Cursor.stored, Cursor.answered, hc, h] at herr
    have hlow : c.items.length < c.threshold := by
      by_contra hge
      exact hok ⟨hc, hpartial, hdata, by omega⟩
    split_ifs with hwants
    · decide
    · have hne : c.answered.outstandingRequests ≠ 0 := fun h0 => hwants ⟨hc, hlow, h0⟩
      simp only [Cursor.answered] at hne ⊢
      omega
  · exact Or.inr (List.length_pos_iff.mpr hdata)

theorem Cursor.Alive.turn {c : Cursor V} (h : c.Alive) : c.turn.Alive := by
  unfold Cursor.turn
  split
  · exact h
  · intro herr
    rw [Cursor.fetch_error] at herr
    rw [Cursor.fetch_outstanding, Cursor.fetch_threshold]
    split_ifs
    · exact Or.inl (by decide)
    · exact h herr

/-- The invariant of every run that never starves the cursor. -/
theorem alive_of_not_starved {c : Cursor V}
    (h : (cursorMachine V).ReachedBy (fun c i => ¬Starves c i) c) : c.Alive := by
  refine h.invariant ?_ ?_
  · rintro _ ⟨query, decoder, first, hfirst, rfl⟩
    rw [Cursor.opened_batch hfirst]
    simp [Cursor.stored, Cursor.Alive]
  · rintro c (res | _) c' - halive hok hstep
    · obtain ⟨hres, hpos, rfl⟩ := hstep
      exact Cursor.Alive.respond hres hpos hok
    · change c' = c.turn at hstep
      exact hstep ▸ halive.turn

/-- Once starved: nothing in flight, and the threshold at zero for good. -/
def Cursor.Dead (c : Cursor V) : Prop :=
  c.error = none ∧ c.outstandingRequests = 0 ∧ c.threshold = 0

theorem starves_dead {c : Cursor V} (hreach : (cursorMachine V).Reachable c) {res : Response V}
    (hpos : 0 < c.outstandingRequests) (h : Starves c (.respond res)) : (c.respond res).Dead := by
  obtain ⟨herr, hpartial, hdata, hfull⟩ := h
  have hone := (outstanding_bounds hreach).2 herr
  have hnot : ¬c.answered.WantsBatch := fun hw => absurd hw.2.1 (by simpa [Cursor.answered] using hfull)
  rw [Cursor.respond_batch (.inl hpartial)]
  refine ⟨by simp [Cursor.stored, Cursor.answered, herr, hpartial], ?_,
    by simp [Cursor.stored, hdata]⟩
  simp only [Cursor.stored, Cursor.fetch_outstanding, if_neg hnot]
  simp only [Cursor.answered]
  omega

/-- A dead cursor gives out what it holds and then waits for an answer nobody owes it. -/
theorem dead_not_fed {c : Cursor V} (hreach : (cursorMachine V).Reachable c) (h : c.Dead) :
    ∃ n, (cursorMachine V).Reachable (Cursor.turn^[n] c) ∧ ¬(Cursor.turn^[n] c).Fed := by
  obtain ⟨n, hn⟩ : ∃ n, c.items.length = n := ⟨_, rfl⟩
  induction n generalizing c with
  | zero =>
    refine ⟨0, hreach, fun (hfed : c.Fed) => ?_⟩
    have hone := hfed (List.length_eq_zero_iff.mp hn) h.1
    rw [Cursor.fetch_outstanding, if_neg fun hw => by simpa [h.2.2] using hw.2.1] at hone
    have := h.2.1
    omega
  | succ n ih =>
    have hstep : (cursorMachine V).step c .next c.turn := rfl
    have hturn : (cursorMachine V).Reachable c.turn := .step hreach trivial hstep
    cases hitems : c.items with
    | nil => simp [hitems] at hn
    | cons v vs =>
      have heq : c.turn = { c with items := vs } := by rw [Cursor.turn, hitems]
      have hdead : c.turn.Dead := heq ▸ h
      obtain ⟨m, hm⟩ := ih hturn hdead (by rw [heq]; simpa [hitems] using hn)
      exact ⟨m + 1, hm⟩

/-- A cursor that no empty batch starves never waits for an answer nobody was asked for;
and after a batch that starves one, `next` alone leads to exactly that wait. -/
theorem fed_iff_not_starved :
    (∀ c : Cursor V, (cursorMachine V).ReachedBy (fun c i => ¬Starves c i) c → c.Fed) ∧
      ∀ (c : Cursor V) (res : Response V), (cursorMachine V).Reachable c →
        0 < c.outstandingRequests → Starves c (.respond res) →
          (c.respond res).Dead ∧ ∃ n, (cursorMachine V).Reachable (Cursor.turn^[n] (c.respond res)) ∧
            ¬(Cursor.turn^[n] (c.respond res)).Fed := by
  refine ⟨fun c h => (alive_of_not_starved h).fed (outstanding_bounds h).1,
    fun c res h hpos hstarves => ?_⟩
  have hdead := starves_dead h hpos hstarves
  have hstep : (cursorMachine V).step c (.respond res) (c.respond res) :=
    ⟨.inl hstarves.2.1, hpos, rfl⟩
  exact ⟨hdead, dead_not_fed (.step h trivial hstep) hdead⟩

/-- Two empty batches in a row, as a changefeed may send them: the first answers the query,
the second the `CONTINUE` of the constructor. -/
def emptyPartial : Response ℕ := ⟨⟨.successPartial, [], none, none, none⟩, 0⟩

def changefeedQuery : Query ℕ := ⟨.start, 0, none, .ok [], none, false⟩

def changefeedCursor : Cursor ℕ := .opened changefeedQuery (fun _ => .error "") emptyPartial

theorem changefeed_starves :
    changefeedCursor.Fed ∧ (changefeedCursor.respond emptyPartial).Dead ∧
      ∃ n, (cursorMachine ℕ).Reachable (Cursor.turn^[n] (changefeedCursor.respond emptyPartial)) ∧
        ¬(Cursor.turn^[n] (changefeedCursor.respond emptyPartial)).Fed := by
  have hinit : (cursorMachine ℕ).init changefeedCursor := ⟨_, _, _, .inl rfl, rfl⟩
  exact ⟨fed_iff_not_starved.1 _ (.init hinit), fed_iff_not_starved.2 _ emptyPartial (.init hinit)
    (by decide) ⟨rfl, rfl, rfl, by decide⟩⟩

theorem empty_batches_not_fed :
    ¬∀ c : Cursor ℕ, (cursorMachine ℕ).Reachable c → c.Fed := by
  intro h
  have hinit : (cursorMachine ℕ).init changefeedCursor := ⟨_, _, _, .inl rfl, rfl⟩
  have hstep : (cursorMachine ℕ).step changefeedCursor (.respond emptyPartial)
      (changefeedCursor.respond emptyPartial) :=
    ⟨.inl rfl, by decide, rfl⟩
  have hfed := h _ (.step (.init hinit) trivial hstep) rfl rfl
  exact absurd hfed (by decide)

end RethinkDB.Net
