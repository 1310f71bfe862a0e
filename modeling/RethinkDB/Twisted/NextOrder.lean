import RethinkDB.Twisted.FetchNext

/-! The order of `next`: who gets which item out of `CursorItems`, and who fails. -/
namespace RethinkDB.Twisted.Cursor
open RethinkDB.Lib Net

variable {V : Type}

/-! ### What a step does to the items -/

/-- The part of a cursor that `next` works on. -/
structure Core (V : Type) where
  items : CursorItems V
  error : Option (Exn V)
  phase : Phase V
  received : List V
  cached : Bool

def World.core (w : World V) : Core V := ⟨w.items, w.error, w.phase, w.received, w.cached⟩

/-- `_extend` is through with the items, or not there. -/
def Phase.Past : Phase V → Prop
  | .idle | .wake _ | .woken _ _ => True
  | _ => False

/-- Where `_extend` would raise on account of the items. -/
def Core.Stuck (c : Core V) : Phase V → Prop
  | .put (_ :: _) _ => ∃ g gs, c.items.waiting = g :: gs ∧ c.items.called g = true
  | .stored => c.cached = false
  | .cancel _ (g :: _) => c.items.called g = true
  | .cancelled g _ _ => g ∉ c.items.waiting
  | _ => False

/-- What a step can do, with the response it takes in. -/
inductive Core.Step (c : Core V) : Option (Response V) → Core V → Prop
  | same : Step c none c
  | pass {p : Phase V} : c.phase.Past → p.Past → Step c none { c with phase := p }
  | fail {e : Exn V} (timed : Bool) : c.items.pending = [] → c.error = some e →
    Step c none { c with items := { c.items with gets := c.items.gets ++ [⟨timed, [.error e]⟩] } }
  | get (timed : Bool) : (c.items.pending = [] → c.error = none) →
    Step c none { c with items := c.items.get timed }
  | timeout {g : ℕ} : c.phase = .idle → c.items.called g = false → g ∈ c.items.waiting →
    Step c none { c with items :=
      ({ c.items with waiting := c.items.waiting.erase g } : CursorItems V).fire g .timeout }
  | store {res : Response V} (last : Bool) : c.phase = .idle → c.cached = true → c.error = none →
    res.type = (if last then .successSequence else .successPartial) →
    Step c (some res) { c with phase := .put res.data last, received := c.received ++ res.data }
  | fault {res : Response V} (e : Exn V) : c.phase = .idle → c.cached = true → c.error = none →
    res.type ≠ .successPartial → res.type ≠ .successSequence →
    Step c (some res) { c with error := some e, phase := .stored }
  | ignore {res : Response V} {e : Exn V} : c.phase = .idle → c.cached = true → c.error = some e →
    Step c (some res) { c with phase := .stored }
  | give {v : V} {data : List V} {last : Bool} {g : ℕ} {gs : List ℕ} :
    c.phase = .put (v :: data) last → c.items.waiting = g :: gs → c.items.called g = false →
    Step c none { c with
      items := ({ c.items with waiting := gs, delivered := c.items.delivered ++ [v] } :
        CursorItems V).fire g (.item v)
      phase := .put data last }
  | keep {v : V} {data : List V} {last : Bool} :
    c.phase = .put (v :: data) last → c.items.waiting = [] →
    Step c none { c with
      items := { c.items with pending := c.items.pending ++ [v] }, phase := .put data last }
  | stored {last : Bool} : c.phase = .put [] last → Step c none { c with
      error := if last then some .cursorEmpty else c.error, phase := .stored }
  | leave {waiters : List ℕ} : c.phase = .stored → c.error = none →
    Step c none { c with phase := .wake waiters }
  | cancel {e : Exn V} (cached : Bool) : c.phase = .stored → c.error = some e →
    Step c none { c with cached, phase := .cancel e c.items.waiting }
  | errback {e : Exn V} {g : ℕ} {gs : List ℕ} :
    c.phase = .cancel e (g :: gs) → c.items.called g = false →
    Step c none { c with items := c.items.fire g (.error e), phase := .cancelled g e gs }
  | remove {e : Exn V} {g : ℕ} {gs : List ℕ} :
    c.phase = .cancelled g e gs → g ∈ c.items.waiting →
    Step c none { c with
      items := { c.items with waiting := c.items.waiting.erase g }, phase := .cancel e gs }
  | done {e : Exn V} {waiters : List ℕ} : c.phase = .cancel e [] →
    Step c none { c with phase := .wake waiters }
  | stuck {c' : Core V} {res : Option (Response V)} : c.Stuck c.phase → Step c res c'

def Event.response : Event V → Option (Response V)
  | .respond res => some res
  | _ => none

section Refine
variable {w w' : World V}

theorem past_of_eq {p p' : Phase V} (h : p = p') (hpast : p'.Past) : p.Past := by
  rw [h]
  exact hpast

theorem core_maybeFetchBatch (w : World V) : w.maybeFetchBatch.core = w.core := by
  obtain ⟨n, heq⟩ := maybeFetchBatch_eq w
  rw [heq]
  rfl

theorem core_fetchLoop (f : ℕ) (w : World V) : (w.fetchLoop f).core = w.core := by
  unfold World.fetchLoop
  split
  · exact core_maybeFetchBatch w
  · rfl

theorem core_getNext (timed : Bool) (w : World V) : w.core.Step none (w.getNext timed).core := by
  unfold World.getNext
  split
  · rename_i e hpending herror
    exact .fail timed hpending herror
  · rename_i hnot
    rw [core_maybeFetchBatch]
    refine .get timed fun hpending => ?_
    cases herror : w.error with
    | none => exact herror
    | some e => exact absurd herror (hnot e hpending)

theorem core_cancelGet (hphase : w.phase = .idle) (g : ℕ) :
    w.core.Step none (w.cancelGet g).core := by
  unfold World.cancelGet
  split
  · rename_i hg
    rw [Bool.not_eq_true'] at hg
    exact .timeout hphase hg.1 hg.2
  · exact .same

theorem core_respond (hphase : w.phase = .idle) (hcached : w.cached = true) {res : Response V}
    (hres : res.Explained) : w.core.Step (some res) (w.respond res).core := by
  obtain ⟨n, heq⟩ := maybeFetchBatch_eq
    { w with outstandingRequests := w.outstandingRequests - 1 }
  unfold World.respond
  simp only [heq]
  split
  · rename_i e herror
    exact .ignore hphase hcached herror
  · rename_i herror
    split
    · rename_i htype
      exact .store false hphase hcached herror htype
    · rename_i htype
      exact .store true hphase hcached herror htype
    · rename_i hpartial hsequence
      obtain ⟨e, he⟩ := Inv.makeError_ok hres w.query
      simp only [he]
      exact .fault e hphase hcached herror hpartial hsequence

theorem core_leaveStored (hphase : w.phase = .stored) : w.core.Step none w.leaveStored.core := by
  unfold World.leaveStored
  split
  · rename_i herror
    exact .leave hphase herror
  · rename_i e herror
    split
    · split
      · exact .cancel false hphase herror
      · rename_i hcached
        apply Core.Step.stuck
        rw [show w.core.phase = .stored from hphase]
        exact Bool.eq_false_iff.mpr hcached
    · exact .cancel w.cached hphase herror

theorem core_resume (w : World V) : w.core.Step none w.resume.core := by
  unfold World.resume
  split
  · exact .same
  case h_2 last hphase => exact .stored hphase
  case h_3 v data last hphase =>
    unfold World.put
    cases hwaiting : w.items.waiting with
    | nil => exact .keep hphase hwaiting
    | cons g gs =>
      cases hcalled : w.items.called g with
      | false =>
        simp only [hcalled, Bool.false_eq_true, if_false]
        exact .give (c := w.core) hphase hwaiting hcalled
      | true =>
        apply Core.Step.stuck
        rw [show w.core.phase = .put (v :: data) last from hphase]
        exact ⟨g, gs, hwaiting, hcalled⟩
  case h_4 hphase => exact core_leaveStored hphase
  case h_5 e hphase => exact .done hphase
  case h_6 e g gs hphase =>
    split
    · rename_i hcalled
      apply Core.Step.stuck
      rw [show w.core.phase = .cancel e (g :: gs) from hphase]
      exact hcalled
    · rename_i hcalled
      exact .errback hphase (Bool.eq_false_iff.mpr hcalled)
  case h_7 g e gs hphase =>
    split
    · rename_i hmem
      exact .remove hphase hmem
    · rename_i hmem
      apply Core.Step.stuck
      rw [show w.core.phase = .cancelled g e gs from hphase]
      exact hmem
  case h_8 hphase => exact .pass (past_of_eq hphase trivial) trivial
  case h_9 d ds hphase =>
    have hpast : w.core.phase.Past := past_of_eq hphase trivial
    unfold World.callback
    cases w.waits.waiters[d]? with
    | none => exact .pass hpast trivial
    | some waiter =>
      cases hcalled : waiter.called with
      | true =>
        simp only [Option.bind_eq_bind, Option.bind_some, hcalled, if_true]
        exact .pass hpast trivial
      | false =>
        simp only [Option.bind_eq_bind, Option.bind_some, hcalled, Bool.false_eq_true, if_false]
        have hwoken (c : Core V) (hc : c = w.core) :
            w.core.Step none { c with phase := .woken d ds } := by
          subst hc
          exact .pass hpast trivial
        exact hwoken _ (core_fetchLoop waiter.fetch { w with waits := w.waits.call d })
  case h_10 d ds hphase =>
    have hpast : w.core.phase.Past := past_of_eq hphase trivial
    split
    · exact .pass hpast trivial
    · exact .pass hpast trivial

/-- Every step of the cursor is one of these. -/
theorem core_step {e : Event V} (h : step w e = some w') : w.core.Step e.response w'.core := by
  unfold step at h
  split at h
  · cases h
  cases e with
  | enter =>
    simp only at h
    split at h <;> cases h
    exact .same
  | leave =>
    simp only at h
    split at h <;> cases h
    exact .same
  | fetchNext timed =>
    simp only at h
    split at h <;> cases h
    unfold World.fetchNext
    rw [core_fetchLoop]
    exact .same
  | next timed =>
    simp only at h
    split at h <;> cases h
    exact core_getNext timed w
  | timer f =>
    simp only at h
    split at h
    · split at h <;> cases h
      · exact .same
      · exact .same
    · cases h
  | nextTimer g =>
    simp only at h
    split at h <;> cases h
    rename_i hquiet
    exact core_cancelGet (phase_of_quiet hquiet.1) g
  | respond res =>
    simp only at h
    split at h <;> cases h
    rename_i hdue
    exact core_respond (phase_of_quiet hdue.1) hdue.2.1 hdue.2.2.2
  | resume =>
    simp only at h
    split at h <;> cases h
    exact core_resume w

end Refine

/-! ### Items go to the calls in their order -/

def Got.item? : Got V → Option V
  | .item v => some v
  | .error _ | .timeout => none

def Get.items (get : Get V) : List V := get.fired.filterMap Got.item?

/-- The items of the Deferreds that succeeded, by the order of the calls. -/
def CursorItems.succeeded (q : CursorItems V) : List V := q.gets.flatMap Get.items

/-- The order in which items were given away is the order of the calls, and whoever waits was there
before those that have not got an item. -/
structure Ordered (q : CursorItems V) : Prop where
  once : ∀ get ∈ q.gets, get.fired.length ≤ 1
  sorted : q.waiting.Pairwise (· < ·)
  order : q.delivered = q.succeeded
  late : ∀ g ∈ q.waiting, ∀ j, g < j → ∀ get, q.gets[j]? = some get → get.items = []

namespace Ordered
variable {q : CursorItems V} {g : ℕ}

theorem append (h : Ordered q) (get : Get V) (hget : get.fired.length ≤ 1) (hitems : get.items = []) :
    Ordered { q with gets := q.gets ++ [get] } where
  once := by
    intro get' hget'
    rcases List.mem_append.mp hget' with hold | hnew
    · exact h.once get' hold
    · rw [List.mem_singleton.mp hnew]
      exact hget
  sorted := h.sorted
  order := by
    rw [CursorItems.succeeded, List.flatMap_append, List.flatMap_singleton, hitems, List.append_nil]
    exact h.order
  late := by
    intro g hg j hj get' hget'
    rw [List.getElem?_append] at hget'
    split at hget'
    · exact h.late g hg j hj get' hget'
    · have hmem := List.mem_of_getElem? hget'
      rw [List.mem_singleton.mp hmem]
      exact hitems

/-- Somebody who waits no longer. -/
theorem waits (h : Ordered q) {waiting : List ℕ} (hsub : waiting.Sublist q.waiting) :
    Ordered { q with waiting } where
  once := h.once
  sorted := h.sorted.sublist hsub
  order := h.order
  late := fun g hg => h.late g (hsub.subset hg)

/-- `get` of an item. -/
theorem take (h : Ordered q) (hwaiting : q.waiting = []) (timed : Bool) (v : V) (vs : List V) :
    Ordered { q with
      pending := vs, gets := q.gets ++ [⟨timed, [.item v]⟩], delivered := q.delivered ++ [v] } where
  once := by
    intro get' hget'
    rcases List.mem_append.mp hget' with hold | hnew
    · exact h.once get' hold
    · rw [List.mem_singleton.mp hnew]
      exact Nat.le_refl 1
  sorted := h.sorted
  order := by
    rw [CursorItems.succeeded, List.flatMap_append, List.flatMap_singleton]
    exact congrArg (· ++ [v]) h.order
  late := by
    intro g hg
    rw [hwaiting] at hg
    cases hg

/-- `get` with nothing there. -/
theorem wait (h : Ordered q) (hbelow : ∀ g ∈ q.waiting, g < q.gets.length) (timed : Bool) :
    Ordered { q with
      waiting := q.waiting ++ [q.gets.length], gets := q.gets ++ [⟨timed, []⟩] } where
  once := (h.append ⟨timed, []⟩ (Nat.zero_le 1) rfl).once
  sorted := by
    rw [List.pairwise_append]
    refine ⟨h.sorted, List.pairwise_singleton _ _, fun g hg g' hg' => ?_⟩
    rw [List.mem_singleton.mp hg']
    exact hbelow g hg
  order := (h.append ⟨timed, []⟩ (Nat.zero_le 1) rfl).order
  late := by
    intro g hg j hj get hget
    rcases List.mem_append.mp hg with hold | hnew
    · exact (h.append ⟨timed, []⟩ (Nat.zero_le 1) rfl).late g hold j hj get hget
    · have hlen := (List.getElem?_eq_some_iff.mp hget).1
      rw [List.mem_singleton.mp hnew] at hj
      rw [List.length_append, List.length_singleton] at hlen
      omega

/-- The Deferreds around one that is fired for the first time. -/
theorem fire_gets (hcalled : q.called g = false) (r : Got V) : ∃ before timed after,
    before.length = g ∧ q.gets = before ++ ⟨timed, []⟩ :: after ∧
      (q.fire g r).gets = before ++ ⟨timed, [r]⟩ :: after := by
  obtain ⟨get, hget, hfired⟩ := called_eq_false.mp hcalled
  obtain ⟨hlt, hget⟩ := List.getElem?_eq_some_iff.mp hget
  obtain ⟨timed, fired⟩ := get
  subst hfired
  refine ⟨q.gets.take g, timed, q.gets.drop (g + 1), List.length_take_of_le hlt.le, ?_, ?_⟩
  · rw [← hget, List.getElem_cons_drop, List.take_append_drop]
  · rw [CursorItems.fire, List.modify_eq_take_cons_drop hlt, hget]
    rfl

theorem once_fire (h : Ordered q) (hcalled : q.called g = false) (r : Got V) :
    ∀ get ∈ (q.fire g r).gets, get.fired.length ≤ 1 := by
  obtain ⟨before, timed, after, -, hgets, hfire⟩ := fire_gets hcalled r
  have honce := h.once
  rw [hgets, List.forall_mem_append, List.forall_mem_cons] at honce
  rw [hfire, List.forall_mem_append, List.forall_mem_cons]
  exact ⟨honce.1, Nat.le_refl 1, honce.2.2⟩

/-- A Deferred fails. -/
theorem miss (h : Ordered q) (hcalled : q.called g = false) {r : Got V} (hr : r.item? = none) :
    Ordered (q.fire g r) where
  once := h.once_fire hcalled r
  sorted := h.sorted
  order := by
    obtain ⟨before, timed, after, -, hgets, hfire⟩ := fire_gets hcalled r
    have hitems : Get.items (⟨timed, [r]⟩ : Get V) = [] := by
      rw [Get.items, List.filterMap_cons_none hr, List.filterMap_nil]
    have horder := h.order
    rw [CursorItems.succeeded, hgets, List.flatMap_append, List.flatMap_cons] at horder
    rw [CursorItems.succeeded, hfire, List.flatMap_append, List.flatMap_cons, hitems]
    exact horder
  late := by
    intro g' hg' j hj get hget
    obtain ⟨get', hget', heq⟩ := getElem?_modify_some hget
    have hitems := h.late g' hg' j hj get' hget'
    split at heq
    · rw [heq, Get.items, List.filterMap_append, List.filterMap_cons_none hr, List.filterMap_nil,
        List.append_nil]
      exact hitems
    · rw [heq]
      exact hitems

/-- The oldest Deferred gets an item. -/
theorem give (h : Ordered q) {gs : List ℕ} (hwaiting : q.waiting = g :: gs)
    (hcalled : q.called g = false) (v : V) :
    Ordered (({ q with waiting := gs, delivered := q.delivered ++ [v] } : CursorItems V).fire g
      (.item v)) where
  once := h.once_fire hcalled (.item v)
  sorted := by
    have hsorted := h.sorted
    rw [hwaiting] at hsorted
    exact (List.pairwise_cons.mp hsorted).2
  order := by
    obtain ⟨before, timed, after, hlength, hgets, hfire⟩ := fire_gets hcalled (.item v)
    have hlate : after.flatMap Get.items = [] := by
      rw [List.flatMap_eq_nil_iff]
      intro get hget
      obtain ⟨i, hi, hget⟩ := List.getElem_of_mem hget
      refine h.late g (hwaiting ▸ List.mem_cons_self) (g + 1 + i) (by omega) get ?_
      rw [hgets, ← hlength, List.getElem?_append_right (by omega),
        show before.length + 1 + i - before.length = i + 1 by omega, List.getElem?_cons_succ, ← hget]
      exact List.getElem?_eq_getElem hi
    have horder := h.order
    rw [CursorItems.succeeded, hgets, List.flatMap_append, List.flatMap_cons, hlate] at horder
    have hsucceeded : (q.fire g (.item v)).succeeded = before.flatMap Get.items ++ [v] := by
      rw [CursorItems.succeeded, hfire, List.flatMap_append, List.flatMap_cons, hlate]
      rfl
    change q.delivered ++ [v] = (q.fire g (.item v)).succeeded
    have hbefore : q.delivered = before.flatMap Get.items := horder.trans (List.append_nil _)
    rw [hsucceeded, hbefore]
  late := by
    intro g' hg' j hj get hget
    have hsorted := h.sorted
    rw [hwaiting] at hsorted
    have hlt := (List.pairwise_cons.mp hsorted).1 g' hg'
    refine h.late g' (hwaiting ▸ List.mem_cons_of_mem g hg') j hj get ?_
    rw [← hget]
    exact (getElem?_fire_of_ne (by omega) (.item v)).symm

end Ordered

/-! ### The invariant -/

structure Core.Sound (c : Core V) : Prop where
  queue : Queue c.items
  ordered : Ordered c.items
  gets : QueuePhase c.items c.error c.phase
  kept : c.received = c.items.delivered ++ c.items.pending ++ c.phase.data
  cached : c.phase.Storing → c.cached = true
  putting : ∀ data last, c.phase = .put data last → c.error = none
  settled : c.phase.Past → c.error ≠ none → c.items.waiting = []
  told : ∀ get ∈ c.items.gets, ∀ e, Got.error e ∈ get.fired → c.error = some e

namespace Core.Sound
variable {c c' : Core V}

/-- The items are not in the way of `_extend`. -/
theorem not_stuck (h : c.Sound) : ¬c.Stuck c.phase := by
  have hgets := h.gets
  have hcached := h.cached
  intro hstuck
  cases hphase : c.phase with
  | put data last =>
    rw [hphase] at hgets hstuck
    cases data with
    | nil => exact hstuck
    | cons v data =>
      obtain ⟨g, gs, hwaiting, hcalled⟩ := hstuck
      have hg : g ∈ c.items.waiting := hwaiting ▸ List.mem_cons_self
      rw [called_eq_false.mpr (hgets g hg)] at hcalled
      cases hcalled
  | stored =>
    rw [hphase] at hcached hstuck
    rw [show c.cached = false from hstuck] at hcached
    cases hcached trivial
  | cancel e gs =>
    rw [hphase] at hgets hstuck
    cases gs with
    | nil => exact hstuck
    | cons g gs =>
      have hcalled := called_eq_false.mpr (hgets.2.2 g List.mem_cons_self)
      rw [show c.items.called g = true from hstuck] at hcalled
      cases hcalled
  | cancelled g e gs =>
    rw [hphase] at hgets hstuck
    exact hstuck (hgets.2.1 ▸ List.mem_cons_self)
  | idle => rw [hphase] at hstuck; exact hstuck
  | wake ds => rw [hphase] at hstuck; exact hstuck
  | woken d ds => rw [hphase] at hstuck; exact hstuck

/-- `QueuePhase` away from `cancel_getters`. -/
theorem uncalled (h : c.Sound) (hphase : c.phase.Past ∨ c.phase.Storing ∨ c.error = none) :
    Uncalled c.items c.items.waiting := by
  have hgets := h.gets
  cases hp : c.phase with
  | cancel e gs =>
    rw [hp] at hphase hgets
    rcases hphase with hno | hno | hnone
    · exact hno.elim
    · exact hno.elim
    · rw [hnone] at hgets
      cases hgets.1
  | cancelled g e gs =>
    rw [hp] at hphase hgets
    rcases hphase with hno | hno | hnone
    · exact hno.elim
    · exact hno.elim
    · rw [hnone] at hgets
      cases hgets.1
  | put data last => rw [hp] at hgets; exact hgets
  | stored => rw [hp] at hgets; exact hgets
  | idle => rw [hp] at hgets; exact hgets
  | wake ds => rw [hp] at hgets; exact hgets
  | woken d ds => rw [hp] at hgets; exact hgets

theorem queuePhase_past {q : CursorItems V} {error : Option (Exn V)} {p : Phase V} (hp : p.Past)
    (h : Uncalled q q.waiting) : QueuePhase q error p := by
  cases p with
  | put data last => exact hp.elim
  | stored => exact hp.elim
  | cancel e gs => exact hp.elim
  | cancelled g e gs => exact hp.elim
  | idle => exact h
  | wake ds => exact h
  | woken d ds => exact h

theorem data_past {p : Phase V} (hp : p.Past) : p.data = [] := by
  cases p with
  | put data last => exact hp.elim
  | _ => rfl

theorem not_storing_past {p : Phase V} (hp : p.Past) : ¬p.Storing := by
  cases p with
  | put data last => exact hp.elim
  | stored => exact hp.elim
  | _ => exact id

theorem not_put_past {p : Phase V} (hp : p.Past) (data : List V) (last : Bool) :
    p ≠ .put data last := by
  rintro rfl
  exact hp

/-- On to a phase in which the items rest. -/
theorem rest (h : c.Sound) (huncalled : Uncalled c.items c.items.waiting)
    (hdata : c.phase.data = []) (hsettled : c.error ≠ none → c.items.waiting = []) {p : Phase V}
    (hp : p.Past) : Core.Sound { c with phase := p } where
  queue := h.queue
  ordered := h.ordered
  gets := queuePhase_past hp huncalled
  kept := by
    rw [data_past hp, ← hdata]
    exact h.kept
  cached := fun hstoring => absurd hstoring (not_storing_past hp)
  putting := fun data last heq => absurd heq (not_put_past hp data last)
  settled := fun _ => hsettled
  told := h.told

/-- A call of `next`. -/
theorem next (h : c.Sound) {q : CursorItems V} (htakes : Takes c.items q c.error c.phase)
    (hordered : Ordered q) (hwaiting : c.error ≠ none → q.waiting = c.items.waiting)
    (htold : ∀ get ∈ q.gets, ∀ e, Got.error e ∈ get.fired → c.error = some e) :
    Core.Sound { c with items := q } where
  queue := htakes.queue
  ordered := hordered
  gets := htakes.phase
  kept := by
    rw [htakes.kept]
    exact h.kept
  cached := h.cached
  putting := h.putting
  settled := by
    intro hpast herror
    exact (hwaiting herror).trans (h.settled hpast herror)
  told := htold

theorem told_append (h : c.Sound) {get : Get V}
    (hget : ∀ e, Got.error e ∈ get.fired → c.error = some e) :
    ∀ get' ∈ c.items.gets ++ [get], ∀ e, Got.error e ∈ get'.fired → c.error = some e := by
  intro get' hget'
  rcases List.mem_append.mp hget' with hold | hnew
  · exact h.told get' hold
  · rw [List.mem_singleton.mp hnew]
    exact hget

theorem told_fire (h : c.Sound) {error : Option (Exn V)} (herror : c.error = none ∨ error = c.error)
    {g : ℕ} {r : Got V} (hr : ∀ e, r = .error e → error = some e) :
    ∀ get ∈ (c.items.fire g r).gets, ∀ e, Got.error e ∈ get.fired → error = some e := by
  intro get hget e he
  obtain ⟨j, hj⟩ := List.getElem?_of_mem hget
  obtain ⟨get', hget', heq⟩ := getElem?_modify_some hj
  have hold (hmem : Got.error e ∈ get'.fired) : error = some e := by
    have htold := h.told get' (List.mem_of_getElem? hget') e hmem
    rcases herror with hnone | heq
    · rw [hnone] at htold
      cases htold
    · rw [heq]
      exact htold
  split at heq
  · rw [heq] at he
    rcases List.mem_append.mp he with hmem | hmem
    · exact hold hmem
    · exact hr e (List.mem_singleton.mp hmem).symm
  · rw [heq] at he
    exact hold he

theorem fail (h : c.Sound) (timed : Bool) {e : Exn V} (herror : c.error = some e) :
    Core.Sound { c with items := { c.items with gets := c.items.gets ++ [⟨timed, [.error e]⟩] } } := by
  refine h.next (takes_append h.queue h.gets (by simp)) (h.ordered.append _ (Nat.le_refl 1) rfl)
    (fun _ => rfl) (h.told_append fun e' he' => ?_)
  rw [List.mem_singleton, Got.error.injEq] at he'
  rw [he']
  exact herror

theorem get (h : c.Sound) (timed : Bool) (hbare : c.items.pending = [] → c.error = none) :
    Core.Sound { c with items := c.items.get timed } := by
  have htakes := takes_get h.queue h.gets hbare timed
  unfold CursorItems.get at htakes ⊢
  split at htakes
  · rename_i v vs hpending
    have hwaiting : c.items.waiting = [] := by
      by_contra hne
      rw [h.queue.empty hne] at hpending
      cases hpending
    refine h.next htakes (h.ordered.take hwaiting timed v vs) (fun _ => rfl)
      (h.told_append fun e he => ?_)
    simp at he
  · rename_i hpending
    have hnone := hbare hpending
    have hbelow : ∀ g ∈ c.items.waiting, g < c.items.gets.length := by
      intro g hg
      obtain ⟨get, hget, -⟩ := h.uncalled (.inr (.inr hnone)) g hg
      exact (List.getElem?_eq_some_iff.mp hget).1
    refine h.next htakes (h.ordered.wait hbelow timed) (fun herror => absurd hnone herror)
      (h.told_append fun e he => ?_)
    cases he

theorem timeout (h : c.Sound) (hphase : c.phase = .idle) {g : ℕ} (hcalled : c.items.called g = false)
    (hmem : g ∈ c.items.waiting) : Core.Sound { c with items :=
      ({ c.items with waiting := c.items.waiting.erase g } : CursorItems V).fire g .timeout } := by
  have hpast : c.phase.Past := past_of_eq hphase trivial
  have hun := h.uncalled (.inl hpast)
  have hqueue : Queue (({ c.items with waiting := c.items.waiting.erase g } : CursorItems V).fire g
      .timeout) :=
    h.queue.fire _ (fun g' hg' hne => (List.mem_erase_of_ne hne).mpr hg') (h.queue.nodup.erase g)
      fun _ => h.queue.empty (List.ne_nil_of_mem hmem)
  have hrest : Uncalled (({ c.items with waiting := c.items.waiting.erase g } : CursorItems V).fire g
      .timeout) (c.items.waiting.erase g) :=
    Uncalled.fire (fun g' hg' => hun g' (List.mem_of_mem_erase hg')) h.queue.nodup.not_mem_erase _
  exact {
    queue := hqueue
    ordered := (h.ordered.waits List.erase_sublist).miss hcalled rfl
    gets := queuePhase_past hpast hrest
    kept := h.kept
    cached := h.cached
    putting := h.putting
    settled := by
      intro _ herror
      have hnil := h.settled hpast herror
      rw [hnil] at hmem
      cases hmem
    told := h.told_fire (.inr rfl) fun e he => by cases he }

/-- A response comes. -/
theorem respond (h : c.Sound) (hphase : c.phase = .idle) (hc : c.cached = true) (data : List V)
    (error : Option (Exn V)) (herror : c.error = none ∨ error = c.error) {p : Phase V}
    (hp : p.Storing) (hdata : p.data = data) (hput : ∀ data last, p = .put data last → error = none) :
    Core.Sound { c with error, phase := p, received := c.received ++ data } where
  queue := h.queue
  ordered := h.ordered
  gets := by
    have hun := h.uncalled (.inl (past_of_eq hphase trivial))
    cases p with
    | put data last => exact hun
    | stored => exact hun
    | _ => exact hp.elim
  kept := by
    have hkept := h.kept
    rw [hphase] at hkept
    rw [hkept, hdata]
    exact congrArg (· ++ data) (List.append_nil _)
  cached := fun _ => hc
  putting := hput
  settled := fun hpast => absurd hp (not_storing_past hpast)
  told := by
    intro get hget e he
    have htold := h.told get hget e he
    rcases herror with hnone | heq
    · rw [hnone] at htold
      cases htold
    · rw [heq]
      exact htold

theorem give (h : c.Sound) {v : V} {data : List V} {last : Bool} {g : ℕ} {gs : List ℕ}
    (hphase : c.phase = .put (v :: data) last) (hwaiting : c.items.waiting = g :: gs)
    (hcalled : c.items.called g = false) : Core.Sound { c with
      items := ({ c.items with waiting := gs, delivered := c.items.delivered ++ [v] } :
        CursorItems V).fire g (.item v)
      phase := .put data last } := by
  have hnone := h.putting _ _ hphase
  have hpending : c.items.pending = [] := h.queue.empty (by simp [hwaiting])
  have hun : Uncalled c.items (g :: gs) := hwaiting ▸ h.uncalled (.inr (.inr hnone))
  have hnodup := h.queue.nodup
  rw [hwaiting] at hnodup
  obtain ⟨hnot, hnodup⟩ := List.nodup_cons.mp hnodup
  have hqueue : Queue ({ c.items with waiting := gs }.fire g (.item v)) := by
    refine h.queue.fire _ (fun g' hg' hne => ?_) hnodup fun _ => hpending
    rw [hwaiting] at hg'
    exact List.mem_of_ne_of_mem hne hg'
  exact {
    queue := ⟨hqueue.queued, hnodup, fun _ => hpending⟩
    ordered := h.ordered.give hwaiting hcalled v
    gets := Uncalled.fire (fun g' hg' => hun g' (List.mem_cons_of_mem _ hg')) hnot _
    kept := by
      have hkept := h.kept
      rw [hphase] at hkept
      simpa [Phase.data, CursorItems.fire, hpending] using hkept
    cached := fun _ => h.cached (by rw [hphase]; trivial)
    putting := fun _ _ _ => hnone
    settled := fun hpast => hpast.elim
    told := h.told_fire (.inr rfl) fun e he => by cases he }

theorem keep (h : c.Sound) {v : V} {data : List V} {last : Bool}
    (hphase : c.phase = .put (v :: data) last) (hwaiting : c.items.waiting = []) :
    Core.Sound { c with
      items := { c.items with pending := c.items.pending ++ [v] }, phase := .put data last } where
  queue := ⟨h.queue.queued, h.queue.nodup, fun hne => absurd hwaiting hne⟩
  ordered := ⟨h.ordered.once, h.ordered.sorted, h.ordered.order, h.ordered.late⟩
  gets := h.uncalled (.inr (.inr (h.putting _ _ hphase)))
  kept := by
    have hkept := h.kept
    rw [hphase] at hkept
    simpa [Phase.data] using hkept
  cached := fun _ => h.cached (by rw [hphase]; trivial)
  putting := fun _ _ _ => h.putting _ _ hphase
  settled := fun hpast => hpast.elim
  told := h.told

theorem stored (h : c.Sound) {last : Bool} (hphase : c.phase = .put [] last) : Core.Sound { c with
    error := if last then some .cursorEmpty else c.error, phase := .stored } where
  queue := h.queue
  ordered := h.ordered
  gets := h.uncalled (.inr (.inr (h.putting _ _ hphase)))
  kept := by
    have hkept := h.kept
    rw [hphase] at hkept
    exact hkept
  cached := fun _ => h.cached (by rw [hphase]; trivial)
  putting := fun _ _ heq => by cases heq
  settled := fun hpast => hpast.elim
  told := by
    intro get hget e he
    have htold := h.told get hget e he
    rw [h.putting _ _ hphase] at htold
    cases htold

theorem cancel (h : c.Sound) {e : Exn V} (cached : Bool) (hphase : c.phase = .stored)
    (herror : c.error = some e) :
    Core.Sound { c with cached, phase := .cancel e c.items.waiting } where
  queue := h.queue
  ordered := h.ordered
  gets := ⟨herror, rfl, h.uncalled (.inr (.inl (by rw [hphase]; trivial)))⟩
  kept := by
    have hkept := h.kept
    rw [hphase] at hkept
    exact hkept
  cached := fun hs => hs.elim
  putting := fun _ _ heq => by cases heq
  settled := fun hpast => hpast.elim
  told := h.told

theorem errback (h : c.Sound) {e : Exn V} {g : ℕ} {gs : List ℕ}
    (hphase : c.phase = .cancel e (g :: gs)) (hcalled : c.items.called g = false) :
    Core.Sound { c with items := c.items.fire g (.error e), phase := .cancelled g e gs } := by
  have hgets := h.gets
  rw [hphase] at hgets
  obtain ⟨herror, hwaiting, hun⟩ := hgets
  have hnodup := h.queue.nodup
  rw [hwaiting] at hnodup
  obtain ⟨get, hget, -⟩ := hun g List.mem_cons_self
  exact {
    queue := h.queue.fire _ (fun g' hg' _ => hg') h.queue.nodup h.queue.empty
    ordered := h.ordered.miss hcalled rfl
    gets := by
      refine ⟨herror, hwaiting, Uncalled.fire (fun g' hg' => hun g' (List.mem_cons_of_mem _ hg'))
        (List.nodup_cons.mp hnodup).1 _, { get with fired := get.fired ++ [.error e] }, ?_, ?_⟩
      · simp [CursorItems.fire, hget]
      · simp
    kept := by
      have hkept := h.kept
      rw [hphase] at hkept
      exact hkept
    cached := fun hs => hs.elim
    putting := fun _ _ heq => by cases heq
    settled := fun hpast => hpast.elim
    told := by
      refine h.told_fire (.inr rfl) fun e' he' => ?_
      rw [Got.error.injEq] at he'
      rw [← he']
      exact herror }

theorem remove (h : c.Sound) {e : Exn V} {g : ℕ} {gs : List ℕ}
    (hphase : c.phase = .cancelled g e gs) (hmem : g ∈ c.items.waiting) : Core.Sound { c with
      items := { c.items with waiting := c.items.waiting.erase g }, phase := .cancel e gs } := by
  have hgets := h.gets
  rw [hphase] at hgets
  obtain ⟨herror, hwaiting, hun, get, hget, hfired⟩ := hgets
  have herase : c.items.waiting.erase g = gs := by
    rw [hwaiting]
    exact List.erase_cons_head g gs
  exact {
    queue := by
      refine ⟨fun g' get' hget' hfired' => ?_, h.queue.nodup.erase g,
        fun _ => h.queue.empty (List.ne_nil_of_mem hmem)⟩
      have hne : g' ≠ g := by
        intro heq
        rw [heq] at hget'
        rw [show c.items.gets[g]? = some get' from hget'] at hget
        cases hget
        exact hfired hfired'
      exact (List.mem_erase_of_ne hne).mpr (h.queue.queued g' get' hget' hfired')
    ordered := h.ordered.waits List.erase_sublist
    gets := ⟨herror, herase, hun⟩
    kept := by
      have hkept := h.kept
      rw [hphase] at hkept
      exact hkept
    cached := fun hs => hs.elim
    putting := fun _ _ heq => by cases heq
    settled := fun hpast => hpast.elim
    told := h.told }

theorem step (h : c.Sound) {res : Option (Response V)} (hstep : c.Step res c') : c'.Sound := by
  cases hstep with
  | same => exact h
  | pass hpast hp => exact h.rest (h.uncalled (.inl hpast)) (data_past hpast) (h.settled hpast) hp
  | fail timed hpending herror => exact h.fail timed herror
  | get timed hbare => exact h.get timed hbare
  | timeout hphase hcalled hmem => exact h.timeout hphase hcalled hmem
  | store last hphase hc herror htype =>
    exact h.respond hphase hc _ _ (.inr rfl) trivial rfl fun _ _ _ => herror
  | fault e hphase hc herror hpartial hsequence =>
    have hsound := h.respond hphase hc [] (some e) (.inl herror) (p := .stored) trivial rfl
      fun _ _ heq => by cases heq
    rwa [List.append_nil] at hsound
  | ignore hphase hc herror =>
    have hsound := h.respond hphase hc [] _ (.inr rfl) (p := .stored) trivial rfl
      fun _ _ heq => by cases heq
    rwa [List.append_nil] at hsound
  | give hphase hwaiting hcalled => exact h.give hphase hwaiting hcalled
  | keep hphase hwaiting => exact h.keep hphase hwaiting
  | stored hphase => exact h.stored hphase
  | leave hphase herror =>
    refine h.rest (h.uncalled (.inr (.inr herror))) ?_ (fun hne => absurd herror hne) trivial
    rw [hphase]
    rfl
  | cancel cached hphase herror => exact h.cancel cached hphase herror
  | errback hphase hcalled => exact h.errback hphase hcalled
  | remove hphase hmem => exact h.remove hphase hmem
  | done hphase =>
    have hgets := h.gets
    rw [hphase] at hgets
    refine h.rest ?_ ?_ (fun _ => hgets.2.1) trivial
    · rw [hgets.2.1]
      intro g hg
      cases hg
    · rw [hphase]
      rfl
  | stuck hstuck => exact absurd hstuck h.not_stuck

end Core.Sound

/-! ### The batches -/

/-- The items of some responses, up to the one that ends the stream; `more` is whether it has not
come before. -/
def arrived (more : Bool) : List (Option (Response V)) → List V
  | [] => []
  | none :: rs => arrived more rs
  | some res :: rs =>
    if more then match res.type with
      | .successPartial => res.data ++ arrived more rs
      | .successSequence => res.data
      | _ => []
    else []

theorem arrived_false (rs : List (Option (Response V))) : arrived false rs = [] := by
  induction rs with
  | nil => rfl
  | cons r rs ih =>
    cases r with
    | none => exact ih
    | some res => rfl

/-- The items that are put into the queue are the last ones. -/
def Phase.last : Phase V → Bool
  | .put _ last => last
  | _ => false

def Core.more (c : Core V) : Bool := c.error.isNone && !c.phase.last

theorem last_of_past {p : Phase V} (hp : p.Past) : p.last = false := by
  cases p with
  | put data last => exact hp.elim
  | _ => rfl

theorem more_congr {c c' : Core V} (herror : c'.error = c.error)
    (hlast : c'.phase.last = c.phase.last) : c'.more = c.more := by
  rw [Core.more, Core.more, herror, hlast]

/-- A step without a response is of no account for the stream. -/
theorem Core.Step.more_eq {c c' : Core V} (h : c.Sound) (hstep : c.Step none c') :
    c'.more = c.more ∧ c'.received = c.received := by
  cases hstep with
  | same => exact ⟨rfl, rfl⟩
  | pass hpast hp =>
    exact ⟨more_congr rfl ((last_of_past hp).trans (last_of_past hpast).symm), rfl⟩
  | fail timed hpending herror => exact ⟨rfl, rfl⟩
  | get timed hbare => exact ⟨rfl, rfl⟩
  | timeout hphase hcalled hmem => exact ⟨rfl, rfl⟩
  | give hphase hwaiting hcalled => exact ⟨more_congr rfl (by rw [hphase]; rfl), rfl⟩
  | keep hphase hwaiting => exact ⟨more_congr rfl (by rw [hphase]; rfl), rfl⟩
  | stored hphase =>
    rename_i last
    refine ⟨?_, rfl⟩
    rw [Core.more, Core.more, hphase]
    cases last with
    | true => exact (Bool.and_false _).symm
    | false => rfl
  | leave hphase herror => exact ⟨more_congr rfl (by rw [hphase]; rfl), rfl⟩
  | cancel cached hphase herror => exact ⟨more_congr rfl (by rw [hphase]; rfl), rfl⟩
  | errback hphase hcalled => exact ⟨more_congr rfl (by rw [hphase]; rfl), rfl⟩
  | remove hphase hmem => exact ⟨more_congr rfl (by rw [hphase]; rfl), rfl⟩
  | done hphase => exact ⟨more_congr rfl (by rw [hphase]; rfl), rfl⟩
  | stuck hstuck => exact absurd hstuck h.not_stuck

/-- What a step adds to the items that have arrived. -/
theorem Core.Step.arrives {c c' : Core V} (h : c.Sound) {res : Option (Response V)}
    (hstep : c.Step res c') (rs : List (Option (Response V))) :
    c.received ++ arrived c.more (res :: rs) = c'.received ++ arrived c'.more rs := by
  cases res with
  | none =>
    obtain ⟨hmore, hreceived⟩ := hstep.more_eq h
    rw [hmore, hreceived]
    rfl
  | some res =>
    cases hstep with
    | store last hphase hc herror htype =>
      rw [Core.more, Core.more, hphase, herror]
      change c.received ++ arrived true (some res :: rs) =
        c.received ++ res.data ++ arrived (!last) rs
      rw [arrived, if_pos rfl, htype, List.append_assoc]
      cases last with
      | true => rw [Bool.not_true, arrived_false, List.append_nil]; rfl
      | false => rfl
    | fault e hphase hc herror hpartial hsequence =>
      rw [Core.more, hphase, herror]
      change c.received ++ arrived true (some res :: rs) = c.received ++ arrived false rs
      rw [arrived, if_pos rfl, arrived_false]
      cases htype : res.type with
      | successPartial => exact absurd htype hpartial
      | successSequence => exact absurd htype hsequence
      | _ => rfl
    | ignore hphase hc herror =>
      rw [Core.more, Core.more, herror]
      change c.received ++ arrived false (some res :: rs) = c.received ++ arrived false rs
      rw [arrived_false, arrived_false]
    | stuck hstuck => exact absurd hstuck h.not_stuck

theorem run_arrives {w w' : World V} (h : w.core.Sound) {es : List (Event V)}
    (hrun : run w es = some w') : w'.core.Sound ∧
      w'.received = w.received ++ arrived w.core.more (es.map Event.response) := by
  induction es generalizing w with
  | nil =>
    cases hrun
    exact ⟨h, (List.append_nil _).symm⟩
  | cons e es ih =>
    obtain ⟨w₁, hstep, hrest⟩ := Option.bind_eq_some_iff.mp hrun
    have hcore := core_step hstep
    obtain ⟨hsound, hreceived⟩ := ih (h.step hcore) hrest
    refine ⟨hsound, hreceived.trans ?_⟩
    exact (hcore.arrives h _).symm

/-! ### Who fails at the end -/

/-- There is an error to fail with, and nothing to give any more. -/
structure Core.Spent (e : Exn V) (c : Core V) : Prop where
  error : c.error = some e
  pending : c.items.pending = []

/-- Between two states of a spent cursor Deferreds only fail. -/
structure Fails (e : Exn V) (q q' : CursorItems V) : Prop where
  grows : q.gets.length ≤ q'.gets.length
  kept : ∀ g get', q'.gets[g]? = some get' → g < q.gets.length → ∃ get, q.gets[g]? = some get ∧
    (get' = get ∨ get.fired = [] ∧ get'.fired = [.error e])
  later : ∀ g get', q'.gets[g]? = some get' → q.gets.length ≤ g → get'.fired = [.error e]

theorem Fails.of_gets (e : Exn V) {q q' : CursorItems V} (h : q'.gets = q.gets) : Fails e q q' where
  grows := by rw [h]
  kept := by
    intro g get' hget' _
    rw [h] at hget'
    exact ⟨get', hget', .inl rfl⟩
  later := by
    intro g get' hget' hle
    have hlt := (List.getElem?_eq_some_iff.mp hget').1
    rw [h] at hlt
    omega

theorem Fails.trans {e : Exn V} {q q' q'' : CursorItems V} (h : Fails e q q') (h' : Fails e q' q'') :
    Fails e q q'' where
  grows := h.grows.trans h'.grows
  kept := by
    intro g get'' hget'' hlt
    obtain ⟨get', hget', heq' | ⟨hfired', hfails'⟩⟩ := h'.kept g get'' hget'' (hlt.trans_le h.grows)
    · rw [heq']
      exact h.kept g get' hget' hlt
    · obtain ⟨get, hget, heq | ⟨hfired, hfails⟩⟩ := h.kept g get' hget' hlt
      · rw [heq] at hfired'
        exact ⟨get, hget, .inr ⟨hfired', hfails'⟩⟩
      · rw [hfails] at hfired'
        cases hfired'
  later := by
    intro g get'' hget'' hle
    by_cases hlt : g < q'.gets.length
    · obtain ⟨get', hget', heq' | ⟨hfired', hfails'⟩⟩ := h'.kept g get'' hget'' hlt
      · rw [heq']
        exact h.later g get' hget' hle
      · exact hfails'
    · exact h'.later g get'' hget'' (by omega)

/-- `_extend` is about to fail who waits. -/
def Phase.Failing : Phase V → Prop
  | .stored | .cancel _ _ | .cancelled _ _ _ => True
  | _ => False

/-- How many turns of `_extend` are left until everybody has failed. -/
def Core.toFail (c : Core V) : ℕ :=
  match c.phase with
  | .stored => 2 * c.items.waiting.length + 2
  | .cancel _ gs => 2 * gs.length + 1
  | .cancelled _ _ gs => 2 * gs.length + 2
  | _ => 0

theorem fails_append {e : Exn V} (q : CursorItems V) (timed : Bool) :
    Fails e q { q with gets := q.gets ++ [⟨timed, [.error e]⟩] } where
  grows := by
    rw [List.length_append]
    exact Nat.le_add_right _ _
  kept := by
    intro g get' hget' hlt
    rw [List.getElem?_append_left hlt] at hget'
    exact ⟨get', hget', .inl rfl⟩
  later := by
    intro g get' hget' hle
    rw [List.getElem?_append_right hle] at hget'
    rw [List.mem_singleton.mp (List.mem_of_getElem? hget')]

theorem fails_fire {e : Exn V} {q : CursorItems V} {g : ℕ} (hcalled : q.called g = false) :
    Fails e q (q.fire g (.error e)) where
  grows := by
    rw [CursorItems.fire, List.length_modify]
  kept := by
    intro g' get' hget' _
    obtain ⟨get, hget, heq⟩ := getElem?_modify_some hget'
    refine ⟨get, hget, ?_⟩
    split at heq
    · rename_i hg
      obtain ⟨get₀, hget₀, hfired⟩ := called_eq_false.mp hcalled
      rw [hg, hget] at hget₀
      cases hget₀
      right
      rw [heq, hfired]
      exact ⟨rfl, rfl⟩
    · exact .inl heq
  later := by
    intro g' get' hget' hle
    have hlt := (List.getElem?_eq_some_iff.mp hget').1
    rw [CursorItems.fire, List.length_modify] at hlt
    omega

section Spent
variable {c c' : Core V} {e : Exn V}

/-- While somebody waits, each turn of `_extend` brings it nearer to its end. -/
def Core.Nearer (c c' : Core V) : Prop :=
  c'.items.waiting ≠ [] → c.items.waiting ≠ [] ∧ c'.toFail ≤ c.toFail ∧
    (c'.phase ≠ c.phase → c'.toFail < c.toFail)

theorem toFail_eq {p : Phase V} (hphase : c.phase = p) :
    c.toFail = Core.toFail { c with phase := p } := by
  subst hphase
  rfl

theorem toFail_pos (h : c.phase.Failing) : 0 < c.toFail := by
  cases hphase : c.phase with
  | stored => rw [toFail_eq hphase]; exact Nat.succ_pos _
  | cancel e gs => rw [toFail_eq hphase]; exact Nat.succ_pos _
  | cancelled g e gs => rw [toFail_eq hphase]; exact Nat.succ_pos _
  | _ => rw [hphase] at h; exact h.elim

/-- What a step of a spent cursor does. -/
theorem Core.Spent.step (h : c.Sound) (hspent : c.Spent e) {res : Option (Response V)}
    (hstep : c.Step res c') : c'.Spent e ∧ Fails e c.items c'.items ∧ c.Nearer c' := by
  have hsome : c.error ≠ none := by
    rw [hspent.error]
    exact Option.some_ne_none e
  have hsettled (hpast : c.phase.Past) : c.items.waiting = [] := h.settled hpast hsome
  have hidle (hphase : c.phase = .idle) : c.items.waiting = [] :=
    hsettled (past_of_eq hphase trivial)
  cases hstep with
  | same => exact ⟨hspent, .of_gets e rfl, fun hne => ⟨hne, Nat.le_refl _, fun hno => absurd rfl hno⟩⟩
  | pass hpast hp =>
    exact ⟨⟨hspent.error, hspent.pending⟩, .of_gets e rfl, fun hne => absurd (hsettled hpast) hne⟩
  | fail timed hpending herror =>
    rw [hspent.error] at herror
    cases herror
    exact ⟨⟨hspent.error, hspent.pending⟩, fails_append _ timed,
      fun hne => ⟨hne, Nat.le_refl _, fun hno => absurd rfl hno⟩⟩
  | get timed hbare => exact absurd (hbare hspent.pending) hsome
  | timeout hphase hcalled hmem =>
    rw [hidle hphase] at hmem
    cases hmem
  | store last hphase hc herror htype => exact absurd herror hsome
  | fault e hphase hc herror hpartial hsequence => exact absurd herror hsome
  | ignore hphase hc herror =>
    exact ⟨⟨hspent.error, hspent.pending⟩, .of_gets e rfl, fun hne => absurd (hidle hphase) hne⟩
  | give hphase hwaiting hcalled => exact absurd (h.putting _ _ hphase) hsome
  | keep hphase hwaiting => exact absurd (h.putting _ _ hphase) hsome
  | stored hphase => exact absurd (h.putting _ _ hphase) hsome
  | leave hphase herror => exact absurd herror hsome
  | cancel cached hphase herror =>
    refine ⟨⟨hspent.error, hspent.pending⟩, .of_gets e rfl, fun hne => ⟨hne, ?_⟩⟩
    rw [toFail_eq hphase]
    exact ⟨Nat.le_succ _, fun _ => Nat.lt_succ_self _⟩
  | errback hphase hcalled =>
    have hgets := h.gets
    rw [hphase] at hgets
    rw [hspent.error] at hgets
    obtain ⟨herror, -, -⟩ := hgets
    cases herror
    refine ⟨⟨hspent.error, hspent.pending⟩, fails_fire hcalled, fun hne => ⟨hne, ?_⟩⟩
    rw [toFail_eq hphase]
    exact ⟨Nat.le_succ _, fun _ => Nat.lt_succ_self _⟩
  | remove hphase hmem =>
    refine ⟨⟨hspent.error, hspent.pending⟩, .of_gets e rfl, fun _ => ⟨List.ne_nil_of_mem hmem, ?_⟩⟩
    rw [toFail_eq hphase]
    exact ⟨Nat.le_succ _, fun _ => Nat.lt_succ_self _⟩
  | done hphase =>
    have hgets := h.gets
    rw [hphase] at hgets
    exact ⟨⟨hspent.error, hspent.pending⟩, .of_gets e rfl, fun hne => absurd hgets.2.1 hne⟩
  | stuck hstuck => exact absurd hstuck h.not_stuck

/-- Who waits in a spent cursor waits for `cancel_getters`. -/
theorem failing_of_waiting (h : c.Sound) (hspent : c.Spent e) (hne : c.items.waiting ≠ []) :
    c.phase.Failing := by
  have hsome : c.error ≠ none := by
    rw [hspent.error]
    exact Option.some_ne_none e
  have hsettled := h.settled
  cases hphase : c.phase with
  | put data last => exact absurd (h.putting _ _ hphase) hsome
  | stored => trivial
  | cancel e gs => trivial
  | cancelled g e gs => trivial
  | idle => rw [hphase] at hsettled; exact absurd (hsettled trivial hsome) hne
  | wake ds => rw [hphase] at hsettled; exact absurd (hsettled trivial hsome) hne
  | woken d ds => rw [hphase] at hsettled; exact absurd (hsettled trivial hsome) hne

end Spent

def Event.isResume : Event V → Bool
  | .resume => true
  | _ => false

section Runs
variable {w w' : World V} {e : Exn V}

theorem leaveStored_moves (w : World V) : w.leaveStored.phase ≠ .stored := by
  unfold World.leaveStored
  split
  · intro heq
    cases heq
  · split
    · split
      · intro heq
        cases heq
      · intro heq
        cases heq
    · intro heq
      cases heq

/-- A turn of `_extend` is not one for nothing. -/
theorem resume_moves (h : w.phase.Failing) : w.resume.phase ≠ w.phase := by
  unfold World.resume
  split
  case h_4 hphase =>
    rw [hphase]
    exact leaveStored_moves w
  case h_5 err hphase =>
    rw [hphase]
    intro heq
    cases heq
  case h_6 err g gs hphase =>
    rw [hphase]
    split
    · intro heq
      cases heq
    · intro heq
      cases heq
  case h_7 g err gs hphase =>
    rw [hphase]
    split
    · intro heq
      cases heq
    · intro heq
      cases heq
  all_goals
    rename_i hphase
    rw [hphase] at h
    exact h.elim

/-- What a run of a spent cursor comes to. -/
theorem run_fails (h : w.core.Sound) (hspent : w.core.Spent e) {es : List (Event V)}
    (hrun : run w es = some w') : w'.core.Sound ∧ w'.core.Spent e ∧ Fails e w.items w'.items ∧
      (w'.items.waiting ≠ [] →
        w.items.waiting ≠ [] ∧ w'.core.toFail + es.countP Event.isResume ≤ w.core.toFail) := by
  induction es generalizing w with
  | nil =>
    cases hrun
    exact ⟨h, hspent, .of_gets e rfl, fun hne => ⟨hne, Nat.le_refl _⟩⟩
  | cons ev es ih =>
    obtain ⟨w₁, hstep, hrest⟩ := Option.bind_eq_some_iff.mp hrun
    have hcore := core_step hstep
    obtain ⟨hspent₁, hfails₁, hnearer⟩ := hspent.step h hcore
    obtain ⟨hsound, hspent', hfails', hcount⟩ := ih (h.step hcore) hspent₁ hrest
    refine ⟨hsound, hspent', hfails₁.trans hfails', fun hne => ?_⟩
    obtain ⟨hne₁, hle'⟩ := hcount hne
    obtain ⟨hne₀, hle, hlt⟩ := hnearer hne₁
    refine ⟨hne₀, ?_⟩
    rw [List.countP_cons]
    by_cases hresume : ev.isResume = true
    · rw [if_pos hresume]
      have hmoves : w₁.core.toFail < w.core.toFail := by
        apply hlt
        cases ev with
        | resume =>
          unfold step at hstep
          split at hstep
          · cases hstep
          simp only at hstep
          split at hstep <;> cases hstep
          exact resume_moves (failing_of_waiting h hspent hne₀)
        | _ => cases hresume
      omega
    · rw [if_neg hresume]
      omega

theorem sound_opened (query : Query V) (first : Response V) : (opened query first).core.Sound where
  queue := (inv_opened query first).queue
  ordered := by
    constructor
    · intro get hget
      cases hget
    · exact .nil
    · rfl
    · intro g hg
      cases hg
  gets := (inv_opened query first).gets
  kept := (inv_opened query first).kept
  cached := fun hs => hs.elim
  putting := fun _ _ heq => by cases heq
  settled := fun _ _ => rfl
  told := by
    intro get hget
    cases hget

/-- Deferreds of `next` succeed in the order of the calls, with the items as they have arrived, and
none of these is lost; once there is an error and no item, all others fail with it. -/
theorem next_fifo (query : Query V) {first : Response V}
    (hfirst : first.type = .successPartial ∨ first.type = .successSequence) {es : List (Event V)}
    (hrun : run (opened query first) es = some w) :
    w.items.delivered = w.items.succeeded ∧
    first.data ++ arrived (first.type = .successPartial) (es.map Event.response) =
      w.items.delivered ++ w.items.pending ++ w.phase.data ∧
    (∀ get ∈ w.items.gets, get.fired.length ≤ 1) ∧
    ∀ e, w.error = some e → w.items.pending = [] → ∀ es' w', run w es' = some w' →
      ∀ g get, w'.items.gets[g]? = some get →
        (w.items.gets.length ≤ g → get.fired = [.error e]) ∧
        (w.items.called g = false → get.fired = [.error e] ∨
          get.fired = [] ∧ w'.phase.Failing ∧ es'.countP Event.isResume < w.core.toFail) := by
  obtain ⟨hsound, hreceived⟩ := run_arrives (sound_opened query first) hrun
  have hmore : (opened query first).core.more = decide (first.type = .successPartial) := by
    rcases hfirst with htype | htype
    · simp [Core.more, World.core, opened, Phase.last, htype]
    · simp [Core.more, World.core, opened, Phase.last, htype]
  rw [hmore] at hreceived
  refine ⟨hsound.ordered.order, hreceived.symm.trans hsound.kept, hsound.ordered.once, ?_⟩
  intro e herror hpending es' w' hrun' g get hget
  obtain ⟨hsound', hspent', hfails, hcount⟩ := run_fails hsound ⟨herror, hpending⟩ hrun'
  refine ⟨hfails.later g get hget, fun hcalled => ?_⟩
  obtain ⟨get₀, hget₀, hfired₀⟩ := called_eq_false.mp hcalled
  have hlt := (List.getElem?_eq_some_iff.mp hget₀).1
  obtain ⟨get₁, hget₁, heq | ⟨-, hfails₁⟩⟩ := hfails.kept g get hget hlt
  · rw [hget₀] at hget₁
    cases hget₁
    have hunfired : get.fired = [] := by
      rw [heq]
      exact hfired₀
    have hne : w'.items.waiting ≠ [] :=
      List.ne_nil_of_mem (hsound'.queue.queued g get hget hunfired)
    have hfailing := failing_of_waiting hsound' hspent' hne
    have hpos := toFail_pos hfailing
    obtain ⟨-, hle⟩ := hcount hne
    exact .inr ⟨hunfired, hfailing, by omega⟩
  · exact .inl hfails₁

/-- Of two calls the first times out: the item that comes is for the second. -/
theorem next_fifo_timeout :
    ∃ w, run (opened feed (batch [])) [.enter, .next true, .next false, .leave, .nextTimer 0, .leave,
        .respond (batch [5, 6]), .resume, .leave, .resume, .resume] = some w ∧
      w.items.gets.map Get.fired = [[.timeout], [.item 5]] ∧ w.items.pending = [6] ∧
      w.items.delivered = w.items.succeeded ∧
      [5, 6] = w.items.delivered ++ w.items.pending ++ w.phase.data := by
  obtain ⟨horder, hitems, -⟩ := @next_fifo ℕ _ feed (batch []) (.inl rfl) [.enter,
    .next true, .next false, .leave, .nextTimer 0, .leave, .respond (batch [5, 6]), .resume, .leave,
    .resume, .resume] rfl
  exact ⟨_, rfl, rfl, rfl, horder, hitems⟩

end Runs

end RethinkDB.Twisted.Cursor
