import Mathlib.Data.List.Nodup
import RethinkDB.Twisted.Cursor

/-! A `fetch_next` that times out leaves its Deferred in `waiting`. As long as no response comes
after that, every call ends once and every response is taken in. -/
namespace RethinkDB.Twisted.Cursor
open RethinkDB.Lib Net

variable {V : Type}

/-! ### The calls of `fetch_next` -/

def Waits.Unfired (s : Waits) (d : ℕ) : Prop := ∃ f, s.waiters[d]? = some ⟨f, false⟩

def Waits.Fired (s : Waits) (d : ℕ) : Prop := ∃ f, s.waiters[d]? = some ⟨f, true⟩

/-- A call that has not ended waits on one Deferred, which waits for it; `running` is the call that
is inside its loop. -/
structure Linked (running : Option ℕ) (s : Waits) : Prop where
  waits : ∀ (f : ℕ) (c : Fetch), s.fetches[f]? = some c → c.fired = [] → running ≠ some f →
    ∃ d ∈ s.waiting, c.wait = some d ∧ s.waiters[d]? = some ⟨f, false⟩
  owner : ∀ (d f : ℕ), s.waiters[d]? = some ⟨f, false⟩ →
    running ≠ some f ∧ ∃ c : Fetch, s.fetches[f]? = some c ∧ c.fired = [] ∧ c.wait = some d
  inside : ∀ f, running = some f → ∃ c : Fetch, s.fetches[f]? = some c ∧ c.fired = []
  once : ∀ (f : ℕ) (c : Fetch), s.fetches[f]? = some c →
    c.fired.length ≤ 1 ∧ (c.expired = true ↔ c.fired = [.timeout])
  own : ∀ (f : ℕ) (c : Fetch) (d : ℕ), s.fetches[f]? = some c → c.wait = some d →
    ∃ called, s.waiters[d]? = some ⟨f, called⟩
  nodup : s.waiting.Nodup
  below : ∀ d ∈ s.waiting, d < s.waiters.length

theorem getElem?_modify_some {α : Type} {l : List α} {i j : ℕ} {f : α → α} {a : α}
    (h : (l.modify i f)[j]? = some a) :
    ∃ b, l[j]? = some b ∧ a = if i = j then f b else b := by
  rw [List.getElem?_modify] at h
  obtain ⟨b, hb, hab⟩ := Option.map_eq_some_iff.mp h
  exact ⟨b, hb, hab.symm⟩

namespace Linked
variable {s : Waits} {f d : ℕ}

theorem new (h : Linked none s) (timed : Bool) :
    Linked (some s.fetches.length) { s with fetches := s.fetches ++ [⟨none, timed, [], false⟩] } := by
  have hold : ∀ g c, (s.fetches ++ [⟨none, timed, [], false⟩])[g]? = some c →
      s.fetches[g]? = some c ∨ (g = s.fetches.length ∧ c = ⟨none, timed, [], false⟩) := by
    intro g c hc
    rw [List.getElem?_append] at hc
    split at hc
    · exact .inl hc
    · obtain ⟨hlt, hget⟩ := List.getElem?_eq_some_iff.mp hc
      rw [List.length_singleton] at hlt
      right
      constructor
      · omega
      · simpa using hget.symm
  exact {
    waits := by
      intro g c hc hfired hrunning
      rcases hold g c hc with hc | ⟨rfl, _⟩
      · exact h.waits g c hc hfired (by simp)
      · exact absurd rfl hrunning
    owner := by
      intro d g hd
      obtain ⟨_, c, hc, hfired, hwait⟩ := h.owner d g hd
      obtain ⟨hlt, _⟩ := List.getElem?_eq_some_iff.mp hc
      constructor
      · intro heq
        have := Option.some.inj heq
        omega
      · exact ⟨c, by rwa [List.getElem?_append_left hlt], hfired, hwait⟩
    inside := by
      intro g hg
      cases hg
      exact ⟨_, List.getElem?_concat_length, rfl⟩
    once := by
      intro g c hc
      rcases hold g c hc with hc | ⟨_, rfl⟩
      · exact h.once g c hc
      · simp
    own := by
      intro g c d hc hwait
      rcases hold g c hc with hc | ⟨_, rfl⟩
      · exact h.own g c d hc hwait
      · cases hwait
    nodup := h.nodup
    below := h.below }

theorem call (h : Linked none s) (hd : s.waiters[d]? = some ⟨f, false⟩) :
    Linked (some f) (s.call d) where
  waits := by
    intro g c hc hfired hrunning
    obtain ⟨d', hmem, hwait, hd'⟩ := h.waits g c hc hfired (by simp)
    refine ⟨d', hmem, hwait, ?_⟩
    have hne : d ≠ d' := by
      intro heq
      subst heq
      rw [hd] at hd'
      cases hd'
      exact hrunning rfl
    simp [Waits.call, hd', hne]
  owner := by
    intro d' g hd'
    obtain ⟨waiter, hwaiter, heq⟩ := getElem?_modify_some hd'
    split at heq
    · cases heq
    · rename_i hne
      subst heq
      obtain ⟨_, c, hc, hfired, hwait⟩ := h.owner d' g hwaiter
      refine ⟨?_, c, hc, hfired, hwait⟩
      intro hfg
      cases hfg
      obtain ⟨_, c', hc', _, hwait'⟩ := h.owner d f hd
      rw [hc] at hc'
      cases hc'
      rw [hwait] at hwait'
      exact hne (Option.some.inj hwait').symm
  inside := by
    intro g hg
    cases hg
    obtain ⟨_, c, hc, hfired, _⟩ := h.owner d f hd
    exact ⟨c, hc, hfired⟩
  once := h.once
  own := by
    intro g c d' hc hwait
    obtain ⟨called, hd'⟩ := h.own g c d' hc hwait
    by_cases hne : d = d'
    · exact ⟨true, by simp [Waits.call, hne, hd']⟩
    · exact ⟨called, by simp [Waits.call, hne, hd']⟩
  nodup := h.nodup
  below := by
    intro d' hd'
    rw [Waits.call, List.length_modify]
    exact h.below d' hd'

theorem await (h : Linked (some f) s) : Linked none (s.await f) := by
  have hfresh : ∀ d ∈ s.waiting, d ≠ s.waiters.length := by
    intro d hd
    have := h.below d hd
    omega
  exact {
    waits := by
      intro g c hc hfired _
      obtain ⟨c', hc', heq⟩ := getElem?_modify_some hc
      split at heq
      · rename_i hfg
        subst hfg heq
        exact ⟨s.waiters.length, by simp [Waits.await], rfl, List.getElem?_concat_length⟩
      · rename_i hfg
        subst heq
        obtain ⟨d, hmem, hwait, hd⟩ := h.waits g c hc' hfired (by simpa using hfg)
        refine ⟨d, List.mem_append_left _ hmem, hwait, ?_⟩
        rw [Waits.await, List.getElem?_append_left (h.below d hmem)]
        exact hd
    owner := by
      intro d g hd
      refine ⟨by simp, ?_⟩
      obtain ⟨c, hc, hfired⟩ := h.inside f rfl
      rw [Waits.await, List.getElem?_append] at hd
      split at hd
      · obtain ⟨hrunning, c', hc', hfired', hwait'⟩ := h.owner d g hd
        have hfg : f ≠ g := by simpa using hrunning
        exact ⟨c', by simp [Waits.await, hfg, hc'], hfired', hwait'⟩
      · obtain ⟨hlt, hget⟩ := List.getElem?_eq_some_iff.mp hd
        rw [List.length_singleton] at hlt
        have hdlen : d = s.waiters.length := by omega
        have hgf : f = g := by simpa using congrArg Waiter.fetch hget
        subst hgf hdlen
        exact ⟨{ c with wait := some s.waiters.length }, by simp [Waits.await, hc], hfired, rfl⟩
    inside := by simp
    once := by
      intro g c hc
      obtain ⟨c', hc', heq⟩ := getElem?_modify_some hc
      split at heq
      · subst heq
        exact h.once g c' hc'
      · subst heq
        exact h.once g c hc'
    own := by
      intro g c d hc hwait
      obtain ⟨c', hc', heq⟩ := getElem?_modify_some hc
      split at heq
      · rename_i hfg
        subst heq hfg
        cases hwait
        exact ⟨false, List.getElem?_concat_length⟩
      · subst heq
        obtain ⟨called, hd⟩ := h.own g c d hc' hwait
        refine ⟨called, ?_⟩
        rw [Waits.await, List.getElem?_append_left (List.getElem?_eq_some_iff.mp hd).1]
        exact hd
    nodup := by
      refine List.nodup_append.mpr ⟨h.nodup, List.nodup_singleton _, ?_⟩
      intro d hd d' hd'
      rw [List.mem_singleton.mp hd']
      exact hfresh d hd
    below := by
      intro d hd
      rw [Waits.await, List.length_append, List.length_singleton]
      rcases List.mem_append.mp hd with hd | hd
      · have := h.below d hd
        omega
      · rw [List.mem_singleton.mp hd]
        omega }

/-- The call that is running ends. -/
theorem finish (h : Linked (some f) s) {g : Fetch → Fetch} {r : Fetched}
    (hg : ∀ c, c.fired = [] → c.expired = false →
      (g c).fired = [r] ∧ ((g c).expired = true ↔ r = .timeout))
    (hwait : ∀ c, (g c).wait = c.wait) :
    Linked none { s with fetches := s.fetches.modify f g } := by
  obtain ⟨c₀, hc₀, hfired₀⟩ := h.inside f rfl
  have hexpired₀ : c₀.expired = false := by
    have hiff := (h.once f c₀ hc₀).2
    rw [hfired₀] at hiff
    simpa using hiff
  obtain ⟨hr, hexpired⟩ := hg c₀ hfired₀ hexpired₀
  exact {
    waits := by
      intro i c hc hfired _
      obtain ⟨c', hc', heq⟩ := getElem?_modify_some hc
      split at heq
      · rename_i hfi
        subst hfi heq
        rw [hc₀] at hc'
        cases hc'
        rw [hr] at hfired
        cases hfired
      · rename_i hfi
        subst heq
        exact h.waits i c hc' hfired (by simpa using hfi)
    owner := by
      intro d i hd
      obtain ⟨hrunning, c, hc, hfired, hwait⟩ := h.owner d i hd
      have hfi : f ≠ i := by simpa using hrunning
      exact ⟨by simp, c, by simp [hfi, hc], hfired, hwait⟩
    inside := by simp
    once := by
      intro i c hc
      obtain ⟨c', hc', heq⟩ := getElem?_modify_some hc
      split at heq
      · rename_i hfi
        subst hfi heq
        rw [hc₀] at hc'
        cases hc'
        simp [hr, hexpired]
      · subst heq
        exact h.once i c hc'
    own := by
      intro i c d hc hd
      obtain ⟨c', hc', heq⟩ := getElem?_modify_some hc
      split at heq
      · subst heq
        exact h.own i c' d hc' (by rwa [hwait] at hd)
      · subst heq
        exact h.own i c d hc' hd
    nodup := h.nodup
    below := h.below }

theorem erase (h : Linked none s) (hd : s.Fired d) :
    Linked none { s with waiting := s.waiting.erase d } where
  waits := by
    intro f c hc hfired hrunning
    obtain ⟨d', hmem, hwait, hd'⟩ := h.waits f c hc hfired hrunning
    refine ⟨d', ?_, hwait, hd'⟩
    have hne : d' ≠ d := by
      intro heq
      subst heq
      obtain ⟨g, hg⟩ := hd
      rw [hg] at hd'
      cases hd'
    exact (List.mem_erase_of_ne hne).mpr hmem
  owner := h.owner
  inside := h.inside
  once := h.once
  own := h.own
  nodup := h.nodup.erase d
  below := fun d' hd' => h.below d' (List.mem_of_mem_erase hd')

end Linked

/-! ### The loop over `waiting` -/

/-- Whoever still waits and is not in the loop has nothing to be woken for. -/
def Rested (bare : Prop) (s : Waits) (ds : List ℕ) : Prop := ∀ d, s.Unfired d → d ∈ ds ∨ bare

/-- Those who waited when the response came are woken, or in the loop. -/
def Paid (owed : List ℕ) (s : Waits) (ds : List ℕ) : Prop := ∀ d ∈ owed, s.Fired d ∨ d ∈ ds

/-- `bare` says that the cursor has neither an item nor an error. -/
def WaitPhase (bare : Prop) (owed : List ℕ) (s : Waits) : Phase V → Prop
  | .idle => Rested bare s [] ∧ Paid owed s []
  | .put _ _ | .stored | .cancel _ _ | .cancelled _ _ _ =>
    (∀ d ∈ s.waiting, s.Unfired d) ∧ owed ⊆ s.waiting
  | .wake ds =>
    (∀ d ∈ s.waiting, s.Unfired d) ∧ Rested bare s ds ∧ Paid owed s ds ∧ ds.Nodup ∧
      ds ⊆ s.waiting
  | .woken d ds =>
    s.Fired d ∧ (∀ d' ∈ s.waiting, d' ≠ d → s.Unfired d') ∧ Rested bare s ds ∧ Paid owed s ds ∧
      (d :: ds).Nodup ∧ d :: ds ⊆ s.waiting

namespace WaitPhase
variable {bare : Prop} {owed : List ℕ} {s : Waits} {phase : Phase V} {f d : ℕ}

theorem mono {bare' : Prop} (h : WaitPhase bare owed s phase) (hbare : bare → bare') :
    WaitPhase bare' owed s phase := by
  have hrested : ∀ {ds}, Rested bare s ds → Rested bare' s ds :=
    fun hr d hd => (hr d hd).imp_right hbare
  cases phase with
  | idle => exact ⟨hrested h.1, h.2⟩
  | wake ds => exact ⟨h.1, hrested h.2.1, h.2.2⟩
  | woken d ds => exact ⟨h.1, h.2.1, hrested h.2.2.1, h.2.2.2⟩
  | _ => exact h

theorem unfired_await (hd : d ∈ (s.await f).waiting)
    (hold : d ∈ s.waiting → s.Unfired d) (hbelow : ∀ d ∈ s.waiting, d < s.waiters.length) :
    (s.await f).Unfired d := by
  rcases List.mem_append.mp hd with hd | hd
  · obtain ⟨g, hg⟩ := hold hd
    exact ⟨g, by rw [Waits.await, List.getElem?_append_left (hbelow d hd)]; exact hg⟩
  · rw [List.mem_singleton.mp hd]
    exact ⟨f, List.getElem?_concat_length⟩

/-- A call that finds nothing goes on waiting. -/
theorem await (h : WaitPhase bare owed s phase) (hbare : bare)
    (hbelow : ∀ d ∈ s.waiting, d < s.waiters.length) : WaitPhase bare owed (s.await f) phase := by
  have hrested : ∀ {ds}, Rested bare (s.await f) ds := fun _ _ => .inr hbare
  have hfired : ∀ {d}, s.Fired d → (s.await f).Fired d := by
    rintro d ⟨g, hg⟩
    have hlt := (List.getElem?_eq_some_iff.mp hg).1
    exact ⟨g, by rw [Waits.await, List.getElem?_append_left hlt]; exact hg⟩
  have hpaid : ∀ {ds}, Paid owed s ds → Paid owed (s.await f) ds :=
    fun hp d hd => (hp d hd).imp_left hfired
  have hall : (∀ d ∈ s.waiting, s.Unfired d) → ∀ d ∈ (s.await f).waiting, (s.await f).Unfired d :=
    fun hu d hd => unfired_await hd (hu d) hbelow
  have hsub : ∀ {l : List ℕ}, l ⊆ s.waiting → l ⊆ (s.await f).waiting :=
    fun hl d hd => List.mem_append_left _ (hl hd)
  cases phase with
  | idle => exact ⟨hrested, hpaid h.2⟩
  | wake ds =>
    obtain ⟨hu, _, hp, hnodup, hl⟩ := h
    exact ⟨hall hu, hrested, hpaid hp, hnodup, hsub hl⟩
  | woken d ds =>
    obtain ⟨hd, hu, _, hp, hnodup, hl⟩ := h
    refine ⟨hfired hd, fun d' hd' hne => ?_, hrested, hpaid hp, hnodup, hsub hl⟩
    exact unfired_await hd' (fun hmem => hu d' hmem hne) hbelow
  | _ => exact ⟨hall h.1, hsub h.2⟩

/-- Only the Deferreds and the list count. -/
theorem fetches (h : WaitPhase bare owed s phase) (fetches : List Fetch) :
    WaitPhase bare owed { s with fetches } phase := by
  cases phase <;> exact h

theorem fired_call (hd : s.waiters[d]? = some ⟨f, false⟩) : (s.call d).Fired d :=
  ⟨f, by simp [Waits.call, hd]⟩

theorem call_of_ne {d' : ℕ} (hne : d' ≠ d) (waiter : Waiter) :
    (s.call d).waiters[d']? = some waiter ↔ s.waiters[d']? = some waiter := by
  simp [Waits.call, Ne.symm hne]

theorem fired_of_fired {d' : ℕ} (hd' : s.Fired d') : (s.call d).Fired d' := by
  by_cases hne : d' = d
  · subst hne
    obtain ⟨g, hg⟩ := hd'
    exact ⟨g, by simp [Waits.call, hg]⟩
  · obtain ⟨g, hg⟩ := hd'
    exact ⟨g, (call_of_ne hne _).mpr hg⟩

theorem unfired_of_call {d' : ℕ} (hd' : (s.call d).Unfired d') : d' ≠ d ∧ s.Unfired d' := by
  obtain ⟨g, hg⟩ := hd'
  have hne : d' ≠ d := by
    rintro rfl
    obtain ⟨waiter, _, heq⟩ := getElem?_modify_some hg
    simp at heq
  exact ⟨hne, g, (call_of_ne hne _).mp hg⟩

theorem call_idle (h : WaitPhase bare owed s (.idle : Phase V)) :
    WaitPhase bare owed (s.call d) (.idle : Phase V) :=
  ⟨fun d' hd' => h.1 d' (unfired_of_call hd').2, fun d' hd' => (h.2 d' hd').imp_left fired_of_fired⟩

/-- The next one in the loop. -/
theorem call_wake {ds : List ℕ} (h : WaitPhase bare owed s (.wake (d :: ds) : Phase V)) :
    s.Unfired d ∧ WaitPhase bare owed (s.call d) (.woken d ds : Phase V) := by
  obtain ⟨hall, hrested, hpaid, hnodup, hsub⟩ := h
  obtain ⟨f, hf⟩ := hall d (hsub List.mem_cons_self)
  refine ⟨⟨f, hf⟩, fired_call hf, fun d' hd' hne => ?_, fun d' hd' => ?_, fun d' hd' => ?_, hnodup, hsub⟩
  · obtain ⟨g, hg⟩ := hall d' hd'
    exact ⟨g, (call_of_ne hne _).mpr hg⟩
  · obtain ⟨hne, hd'⟩ := unfired_of_call hd'
    rcases hrested d' hd' with hmem | hbare
    · exact .inl (List.mem_of_ne_of_mem hne hmem)
    · exact .inr hbare
  · rcases hpaid d' hd' with hfired | hmem
    · exact .inl (fired_of_fired hfired)
    · rcases List.mem_cons.mp hmem with rfl | hmem
      · exact .inl (fired_call hf)
      · exact .inr hmem

theorem erase_woken {ds : List ℕ} (h : WaitPhase bare owed s (.woken d ds : Phase V))
    (hnodup : s.waiting.Nodup) :
    WaitPhase bare owed { s with waiting := s.waiting.erase d } (.wake ds : Phase V) := by
  obtain ⟨_, hall, hrested, hpaid, hnd, hsub⟩ := h
  refine ⟨fun d' hd' => ?_, hrested, hpaid, (List.nodup_cons.mp hnd).2, fun d' hd' => ?_⟩
  · obtain ⟨hne, hmem⟩ := hnodup.mem_erase_iff.mp hd'
    exact hall d' hmem hne
  · have hne : d' ≠ d := fun heq => (List.nodup_cons.mp hnd).1 (heq ▸ hd')
    exact (List.mem_erase_of_ne hne).mpr (hsub (List.mem_cons_of_mem _ hd'))

/-- The loop takes its copy of the list. -/
theorem start (hlinked : Linked none s)
    (h : (∀ d ∈ s.waiting, s.Unfired d) ∧ owed ⊆ s.waiting) :
    WaitPhase bare owed s (.wake s.waiting : Phase V) := by
  refine ⟨h.1, fun d hd => ?_, fun d hd => .inr (h.2 hd), hlinked.nodup, fun _ hd => hd⟩
  obtain ⟨f, hf⟩ := hd
  obtain ⟨_, c, hc, hfired, hwait⟩ := hlinked.owner d f hf
  obtain ⟨d', hmem, hwait', _⟩ := hlinked.waits f c hc hfired (by simp)
  rw [hwait] at hwait'
  cases hwait'
  exact .inl hmem

end WaitPhase

/-! ### The queue of items -/

structure Queue (q : CursorItems V) : Prop where
  queued : ∀ (g : ℕ) (get : Get V), q.gets[g]? = some get → get.fired = [] → g ∈ q.waiting
  nodup : q.waiting.Nodup
  empty : q.waiting ≠ [] → q.pending = []

/-- Nobody in the list has been called. -/
def Uncalled (q : CursorItems V) (l : List ℕ) : Prop :=
  ∀ g ∈ l, ∃ get : Get V, q.gets[g]? = some get ∧ get.fired = []

def QueuePhase (q : CursorItems V) (error : Option (Exn V)) : Phase V → Prop
  | .cancel err gs => error = some err ∧ q.waiting = gs ∧ Uncalled q gs
  | .cancelled g err gs =>
    error = some err ∧ q.waiting = g :: gs ∧ Uncalled q gs ∧
      ∃ get : Get V, q.gets[g]? = some get ∧ get.fired ≠ []
  | _ => Uncalled q q.waiting

theorem called_eq_false {q : CursorItems V} {g : ℕ} :
    q.called g = false ↔ ∃ get : Get V, q.gets[g]? = some get ∧ get.fired = [] := by
  unfold CursorItems.called
  cases hget : q.gets[g]? with
  | none => simp
  | some get => simp

variable {q : CursorItems V} {error : Option (Exn V)} {phase : Phase V} {g : ℕ}

theorem getElem?_fire_of_ne {g' : ℕ} (hne : g' ≠ g) (r : Got V) :
    (q.fire g r).gets[g']? = q.gets[g']? := by
  simp [CursorItems.fire, Ne.symm hne]

theorem Uncalled.fire {l : List ℕ} (h : Uncalled q l) (hg : g ∉ l) (r : Got V) :
    Uncalled (q.fire g r) l := by
  intro g' hg'
  have hne : g' ≠ g := fun heq => hg (heq ▸ hg')
  rw [getElem?_fire_of_ne hne]
  exact h g' hg'

theorem Uncalled.append {l : List ℕ} (h : Uncalled q l) (get : Get V) :
    Uncalled { q with gets := q.gets ++ [get] } l := by
  intro g hg
  obtain ⟨get', hget', hfired⟩ := h g hg
  exact ⟨get', by rw [List.getElem?_append_left (List.getElem?_eq_some_iff.mp hget').1]; exact hget',
    hfired⟩

namespace Queue

/-- The Deferred fired is one that leaves the queue. -/
theorem fire (h : Queue q) (r : Got V) {l : List ℕ} (hl : ∀ g' ∈ q.waiting, g' ≠ g → g' ∈ l)
    (hnodup : l.Nodup) (hempty : l ≠ [] → q.pending = []) :
    Queue ({ q with waiting := l }.fire g r) where
  queued := by
    intro g' get hget hfired
    obtain ⟨get', hget', heq⟩ := getElem?_modify_some hget
    split at heq
    · subst heq
      simp at hfired
    · rename_i hne
      subst heq
      exact hl g' (h.queued g' get hget' hfired) (Ne.symm hne)
  nodup := hnodup
  empty := hempty

theorem append_fired (h : Queue q) {get : Get V} (hget : get.fired ≠ []) :
    Queue { q with gets := q.gets ++ [get] } where
  queued := by
    intro g get' hget' hfired
    rw [List.getElem?_append] at hget'
    split at hget'
    · exact h.queued g get' hget' hfired
    · obtain ⟨hlt, hget'⟩ := List.getElem?_eq_some_iff.mp hget'
      rw [List.length_singleton] at hlt
      have heq : get = get' := by simpa using hget'
      exact absurd (heq ▸ hfired) hget
  nodup := h.nodup
  empty := h.empty

end Queue

/-- What a call of `next` does to the queue. -/
structure Takes (q q' : CursorItems V) (error : Option (Exn V)) (phase : Phase V) : Prop where
  queue : Queue q'
  phase : QueuePhase q' error phase
  kept : q'.delivered ++ q'.pending = q.delivered ++ q.pending
  bare : q.pending = [] → q'.pending = []

theorem takes_append {q : CursorItems V} {error : Option (Exn V)} {phase : Phase V}
    (h : Queue q) (hphase : QueuePhase q error phase) {get : Get V} (hget : get.fired ≠ []) :
    Takes q { q with gets := q.gets ++ [get] } error phase where
  queue := h.append_fired hget
  phase := by
    cases phase with
    | cancel err gs => exact ⟨hphase.1, hphase.2.1, Uncalled.append hphase.2.2 get⟩
    | cancelled g err gs =>
      obtain ⟨herror, hwaiting, hun, get', hget', hfired⟩ := hphase
      refine ⟨herror, hwaiting, hun.append get, get', ?_, hfired⟩
      rw [List.getElem?_append_left (List.getElem?_eq_some_iff.mp hget').1]
      exact hget'
    | _ => exact Uncalled.append hphase get
  kept := rfl
  bare := id

theorem takes_get {q : CursorItems V} {error : Option (Exn V)} {phase : Phase V} (h : Queue q)
    (hphase : QueuePhase q error phase) (herror : q.pending = [] → error = none) (timed : Bool) :
    Takes q (q.get timed) error phase := by
  unfold CursorItems.get
  split
  · rename_i v vs hpending
    have hfired : (⟨timed, [.item v]⟩ : Get V).fired ≠ [] := by simp
    have htakes := takes_append h hphase hfired
    have hwaiting : q.waiting = [] := by
      by_contra hne
      have := h.empty hne
      rw [hpending] at this
      cases this
    exact {
      queue := ⟨htakes.queue.queued, h.nodup, fun hne => absurd hwaiting hne⟩
      phase := by cases phase <;> exact htakes.phase
      kept := by simp [hpending]
      bare := by simp [hpending] }
  · rename_i hpending
    have hnone := herror hpending
    have hfresh : ∀ g ∈ q.waiting, Uncalled q q.waiting → g ≠ q.gets.length := by
      intro g hg hun
      obtain ⟨get, hget, _⟩ := hun g hg
      have := (List.getElem?_eq_some_iff.mp hget).1
      omega
    have hun : Uncalled q q.waiting := by
      cases phase with
      | cancel err gs => rw [hnone] at hphase; cases hphase.1
      | cancelled g err gs => rw [hnone] at hphase; cases hphase.1
      | _ => exact hphase
    have hall : Uncalled ({ q with
        waiting := q.waiting ++ [q.gets.length], gets := q.gets ++ [⟨timed, []⟩] } : CursorItems V)
        (q.waiting ++ [q.gets.length]) := by
      intro g hg
      rcases List.mem_append.mp hg with hg | hg
      · exact hun.append ⟨timed, []⟩ g hg
      · rw [List.mem_singleton.mp hg]
        exact ⟨_, List.getElem?_concat_length, rfl⟩
    exact {
      queue := {
        queued := by
          intro g get hget hfired
          rw [List.getElem?_append] at hget
          split at hget
          · exact List.mem_append_left _ (h.queued g get hget hfired)
          · have hlt := (List.getElem?_eq_some_iff.mp hget).1
            rw [List.length_singleton] at hlt
            have hg : g = q.gets.length := by omega
            simp [hg]
        nodup := by
          refine List.nodup_append.mpr ⟨h.nodup, List.nodup_singleton _, ?_⟩
          intro g hg g' hg'
          rw [List.mem_singleton.mp hg']
          exact hfresh g hg hun
        empty := fun _ => hpending }
      phase := by
        cases phase with
        | cancel err gs => rw [hnone] at hphase; cases hphase.1
        | cancelled g err gs => rw [hnone] at hphase; cases hphase.1
        | _ => exact hall
      kept := rfl
      bare := id }

/-! ### The invariant -/

/-- The items of the response that are still to be put into the queue. -/
def Phase.data : Phase V → List V
  | .put data _ => data
  | _ => []

/-- Before the response is stored the cursor is in the cache. -/
def Phase.Storing : Phase V → Prop
  | .put _ _ | .stored => True
  | _ => False

structure Inv (w : World V) : Prop where
  isOpen : w.closing = false
  linked : Linked none w.waits
  waits : WaitPhase (w.items.pending = [] ∧ w.error = none) w.owed w.waits w.phase
  queue : Queue w.items
  gets : QueuePhase w.items w.error w.phase
  kept : w.received = w.items.delivered ++ w.items.pending ++ w.phase.data
  cached : w.phase.Storing → w.cached = true

theorem maybeFetchBatch_eq (w : World V) :
    ∃ n, w.maybeFetchBatch = { w with outstandingRequests := n } := by
  unfold World.maybeFetchBatch
  split
  · exact ⟨_, rfl⟩
  · exact ⟨w.outstandingRequests, rfl⟩

/-- A call of `fetch_next` that is inside its loop ends or goes on waiting. -/
theorem fetchLoop_eq {w : World V} {f : ℕ} (hlinked : Linked (some f) w.waits) (phase : Phase V)
    (hwaits : WaitPhase (w.items.pending = [] ∧ w.error = none) w.owed w.waits phase) :
    ∃ n s users, w.fetchLoop f = { w with outstandingRequests := n, waits := s, users } ∧
      Linked none s ∧
      WaitPhase (w.items.pending = [] ∧ w.error = none) w.owed s phase := by
  unfold World.fetchLoop
  split
  · rename_i hbare
    obtain ⟨n, heq⟩ := maybeFetchBatch_eq w
    rw [heq]
    exact ⟨n, _, w.users, rfl, hlinked.await, hwaits.await hbare hlinked.below⟩
  · have hfinish : Linked none (w.waits.fire f (.result (!w.isEmpty || w.hasError))) := by
      refine hlinked.finish (r := .result (!w.isEmpty || w.hasError)) (fun c hfired hexpired => ?_)
        fun _ => rfl
      simp [hfired, hexpired]
    exact ⟨w.outstandingRequests, _, _, rfl, hfinish, hwaits.fetches _⟩

namespace Inv
variable {w w' : World V}

theorem fetchNext (h : Inv w) (timed : Bool) : Inv (w.fetchNext timed) := by
  obtain ⟨n, s, users, heq, hlinked, hwaits⟩ :=
    fetchLoop_eq (w := { w with waits :=
      { w.waits with fetches := w.waits.fetches ++ [⟨none, timed, [], false⟩] } })
      (h.linked.new timed) w.phase (h.waits.fetches _)
  rw [World.fetchNext, heq]
  exact ⟨h.isOpen, hlinked, hwaits, h.queue, h.gets, h.kept, h.cached⟩

/-- The queue gives an item or takes a Deferred. -/
theorem takes (h : Inv w) {q : CursorItems V} (ht : Takes w.items q w.error w.phase) (n : ℤ)
    (users : ℕ) : Inv { w with items := q, outstandingRequests := n, users } where
  isOpen := h.isOpen
  linked := h.linked
  waits := h.waits.mono fun hbare => ⟨ht.bare hbare.1, hbare.2⟩
  queue := ht.queue
  gets := ht.phase
  kept := by
    rw [h.kept, ← ht.kept]
  cached := h.cached

theorem getNext (h : Inv w) (timed : Bool) : Inv (w.getNext timed) := by
  unfold World.getNext
  split
  · rename_i e hpending herror
    exact h.takes (takes_append h.queue h.gets (by simp)) w.outstandingRequests w.users
  · rename_i hnot
    obtain ⟨n, heq⟩ := maybeFetchBatch_eq { w with items := w.items.get timed }
    rw [heq]
    refine h.takes (takes_get h.queue h.gets (fun hpending => ?_) timed) n w.users
    cases herror : w.error with
    | none => rfl
    | some e => exact absurd herror (hnot e hpending)

/-- What `wait.cancel()` does when it does something. -/
theorem cancel_eq (h : Inv w) {f : ℕ} {s : Waits} (hs : w.waits.cancel f = some s) :
    ∃ d, w.waits.waiters[d]? = some ⟨f, false⟩ ∧
      s = ((w.waits.call d).expire f).fire f .timeout := by
  unfold Waits.cancel at hs
  obtain ⟨c, hc, hs⟩ := Option.bind_eq_some_iff.mp hs
  obtain ⟨d, hd, hs⟩ := Option.bind_eq_some_iff.mp hs
  obtain ⟨waiter, hwaiter, hs⟩ := Option.bind_eq_some_iff.mp hs
  obtain ⟨called, hown⟩ := h.linked.own f c d hc hd
  rw [hwaiter] at hown
  cases hown
  split at hs
  · cases hs
  · rename_i hcalled
    cases hs
    cases called with
    | false => exact ⟨d, hwaiter, rfl⟩
    | true => exact absurd rfl hcalled

/-- A timer of a `fetch_next` ends it. -/
theorem timer (h : Inv w) (hphase : w.phase = .idle) {f : ℕ} {s : Waits}
    (hs : w.waits.cancel f = some s) (users : ℕ) : Inv { w with waits := s, users } := by
  obtain ⟨d, hd, rfl⟩ := h.cancel_eq hs
  have hwaits := h.waits
  rw [hphase] at hwaits
  have hfinish : Linked none (((w.waits.call d).expire f).fire f .timeout) := by
    have := (h.linked.call hd).finish (g := fun c => { c with
      fired := c.fired ++ [.timeout], expired := true }) (r := .timeout)
      (fun c hfired _ => by simp [hfired]) fun _ => rfl
    rw [Waits.fire, Waits.expire, List.modify_modify_eq]
    exact this
  exact {
    isOpen := h.isOpen
    linked := hfinish
    waits := by
      show WaitPhase _ _ _ w.phase
      rw [hphase]
      exact hwaits.call_idle.fetches _
    queue := h.queue
    gets := h.gets
    kept := h.kept
    cached := h.cached }

theorem cancelGet (h : Inv w) (hphase : w.phase = .idle) (g : ℕ) : Inv (w.cancelGet g) := by
  unfold World.cancelGet
  split
  · rename_i hg
    have hgets := h.gets
    rw [hphase] at hgets
    have hnot : g ∉ w.items.waiting.erase g := h.queue.nodup.not_mem_erase
    exact {
      isOpen := h.isOpen
      linked := h.linked
      waits := h.waits
      queue := h.queue.fire _ (fun g' hg' hne => (List.mem_erase_of_ne hne).mpr hg')
        (h.queue.nodup.erase g) fun _ => h.queue.empty (List.ne_nil_of_mem hg.2)
      gets := by
        show QueuePhase _ _ w.phase
        rw [hphase]
        refine Uncalled.fire (l := w.items.waiting.erase g) (fun g' hg' => ?_) hnot _
        exact hgets g' (List.mem_of_mem_erase hg')
      kept := h.kept
      cached := h.cached }
  · exact h

theorem makeError_ok {res : Response V} (hres : res.Explained) (query : Query V) :
    ∃ e, res.makeError query = .ok e := by
  unfold Message.Explained at hres
  unfold Response.makeError
  cases htype : res.type <;> simp only [htype] at hres ⊢
  case clientError | compileError | runtimeError =>
    cases hdata : res.data with
    | nil => exact absurd hdata (hres (by simp))
    | cons => exact ⟨_, rfl⟩
  all_goals exact ⟨_, rfl⟩

/-- A response that finds nobody in `waiting` who has been fired is taken in. -/
theorem respond (h : Inv w) (hphase : w.phase = .idle) {res : Response V} (hres : res.Explained)
    (hcached : w.cached = true) (hprompt : ∀ d ∈ w.waits.waiting, ¬w.waits.Fired d) :
    Inv (w.respond res) := by
  have hunfired : ∀ d ∈ w.waits.waiting, w.waits.Unfired d := by
    intro d hd
    have hlt := h.linked.below d hd
    obtain ⟨⟨f, called⟩, hwaiter⟩ : ∃ waiter, w.waits.waiters[d]? = some waiter :=
      ⟨_, List.getElem?_eq_getElem hlt⟩
    cases called with
    | false => exact ⟨f, hwaiter⟩
    | true => exact absurd ⟨f, hwaiter⟩ (hprompt d hd)
  obtain ⟨n, heq⟩ := maybeFetchBatch_eq
    { w with outstandingRequests := w.outstandingRequests - 1 }
  have hkept := h.kept
  have hgets := h.gets
  rw [hphase] at hkept hgets
  have hstart : ∀ {bare : Prop} {phase : Phase V}, phase.Storing →
      WaitPhase bare w.waits.waiting w.waits phase := by
    intro bare phase hstoring
    cases phase with
    | put => exact ⟨hunfired, fun _ hd => hd⟩
    | stored => exact ⟨hunfired, fun _ hd => hd⟩
    | _ => cases hstoring
  unfold World.respond
  simp only [heq]
  split
  · exact ⟨h.isOpen, h.linked, hstart trivial, h.queue, hgets, hkept, fun _ => hcached⟩
  · have hmore : w.received ++ res.data = w.items.delivered ++ w.items.pending ++ res.data := by
      rw [hkept]
      exact congrArg (· ++ res.data) (List.append_nil _)
    split
    · exact ⟨h.isOpen, h.linked, hstart trivial, h.queue, hgets, hmore, fun _ => hcached⟩
    · exact ⟨h.isOpen, h.linked, hstart trivial, h.queue, hgets, hmore, fun _ => hcached⟩
    · obtain ⟨e, he⟩ := makeError_ok hres w.query
      simp only [he]
      exact ⟨h.isOpen, h.linked, hstart trivial, h.queue, hgets, hkept, fun _ => hcached⟩

/-- An item goes to whoever waits for one. -/
theorem put (h : Inv w) {v : V} {data : List V} {last : Bool}
    (hphase : w.phase = .put (v :: data) last) :
    ∃ w', w.put v = some w' ∧ Inv { w' with phase := .put data last } := by
  have hgets := h.gets
  have hwaits := h.waits
  have hkept := h.kept
  have hcached := h.cached
  rw [hphase] at hgets hwaits hkept hcached
  unfold World.put
  cases hwaiting : w.items.waiting with
  | nil =>
    refine ⟨_, rfl, h.isOpen, h.linked, hwaits, ⟨h.queue.queued, h.queue.nodup, ?_⟩, hgets, ?_, hcached⟩
    · intro hne
      exact absurd hwaiting hne
    · simpa [Phase.data] using hkept
  | cons g gs =>
    have hpending : w.items.pending = [] := h.queue.empty (by simp [hwaiting])
    have hun : Uncalled w.items (g :: gs) := hwaiting ▸ hgets
    have hcalled : w.items.called g = false := called_eq_false.mpr (hun g List.mem_cons_self)
    have hnodup := h.queue.nodup
    rw [hwaiting] at hnodup
    obtain ⟨hnot, hnodup⟩ := List.nodup_cons.mp hnodup
    have hqueue : Queue ({ w.items with waiting := gs }.fire g (.item v)) := by
      refine h.queue.fire _ (fun g' hg' hne => ?_) hnodup fun _ => hpending
      rw [hwaiting] at hg'
      exact List.mem_of_ne_of_mem hne hg'
    simp only [hcalled]
    refine ⟨_, rfl, h.isOpen, h.linked, hwaits, ⟨hqueue.queued, hnodup, fun _ => hpending⟩, ?_, ?_,
      hcached⟩
    · exact Uncalled.fire (fun g' hg' => hun g' (List.mem_cons_of_mem _ hg')) hnot _
    · simpa [Phase.data, CursorItems.fire, hpending] using hkept

/-- The response is stored, and the loops start. -/
theorem leaveStored (h : Inv w) (hphase : w.phase = .stored) : Inv w.leaveStored := by
  have hgets := h.gets
  have hwaits := h.waits
  have hkept := h.kept
  have hcached := h.cached
  rw [hphase] at hgets hwaits hkept hcached
  unfold World.leaveStored
  cases herror : w.error with
  | none =>
    refine ⟨h.isOpen, h.linked, ?_, h.queue, hgets, hkept, fun hs => hs.elim⟩
    exact WaitPhase.start h.linked hwaits
  | some e =>
    simp only [hcached trivial, if_true]
    split
    · exact ⟨h.isOpen, h.linked, hwaits, h.queue, ⟨rfl, rfl, hgets⟩, hkept, fun hs => hs.elim⟩
    · exact ⟨h.isOpen, h.linked, hwaits, h.queue, ⟨rfl, rfl, hgets⟩, hkept, fun hs => hs.elim⟩

/-- The next one in `waiting` is woken. -/
theorem callback (h : Inv w) {d : ℕ} {ds : List ℕ} (hphase : w.phase = .wake (d :: ds)) :
    ∃ w', w.callback d = some w' ∧ Inv { w' with phase := .woken d ds } := by
  have hgets := h.gets
  have hwaits := h.waits
  have hkept := h.kept
  rw [hphase] at hgets hwaits hkept
  obtain ⟨⟨f, hf⟩, hwoken⟩ := hwaits.call_wake
  obtain ⟨n, s, users, heq, hlinked, hphase'⟩ :=
    fetchLoop_eq (w := { w with waits := w.waits.call d }) (h.linked.call hf) _ hwoken
  refine ⟨{ w with outstandingRequests := n, waits := s, users }, ?_, ?_⟩
  · unfold World.callback
    rw [hf]
    exact congrArg some heq
  · exact ⟨h.isOpen, hlinked, hphase', h.queue, hgets, hkept, fun hs => hs.elim⟩

theorem resume (h : Inv w) : Inv w.resume := by
  have hgets := h.gets
  have hwaits := h.waits
  have hkept := h.kept
  have hcached := h.cached
  unfold World.resume
  split
  · exact h
  case h_2 last hphase =>
    rw [hphase] at hgets hwaits hkept hcached
    exact ⟨h.isOpen, h.linked, hwaits, h.queue, hgets, hkept, hcached⟩
  case h_3 v data last hphase =>
    obtain ⟨w', heq, hw'⟩ := h.put hphase
    rw [heq]
    exact hw'
  case h_4 hphase => exact h.leaveStored hphase
  case h_5 err hphase =>
    rw [hphase] at hgets hwaits hkept
    refine ⟨h.isOpen, h.linked, WaitPhase.start h.linked hwaits, h.queue, ?_, hkept, fun hs => hs.elim⟩
    intro g hg
    rw [hgets.2.1] at hg
    cases hg
  case h_6 err g gs hphase =>
    rw [hphase] at hgets hwaits hkept
    obtain ⟨herror, hwaiting, hun⟩ := hgets
    have hcalled : w.items.called g = false := called_eq_false.mpr (hun g List.mem_cons_self)
    have hnodup := h.queue.nodup
    rw [hwaiting] at hnodup
    rw [if_neg (by simp [hcalled])]
    obtain ⟨get, hget, _⟩ := hun g List.mem_cons_self
    refine ⟨h.isOpen, h.linked, hwaits, ?_, ⟨herror, hwaiting, ?_, ?_⟩, hkept, fun hs => hs.elim⟩
    · exact h.queue.fire _ (fun g' hg' _ => hg') h.queue.nodup h.queue.empty
    · exact Uncalled.fire (fun g' hg' => hun g' (List.mem_cons_of_mem _ hg'))
        (List.nodup_cons.mp hnodup).1 _
    · exact ⟨{ get with fired := get.fired ++ [.error err] }, by simp [CursorItems.fire, hget],
        by simp⟩
  case h_7 g err gs hphase =>
    rw [hphase] at hgets hwaits hkept
    obtain ⟨herror, hwaiting, hun, get, hget, hfired⟩ := hgets
    have hmem : g ∈ w.items.waiting := by
      rw [hwaiting]
      exact List.mem_cons_self
    have herase : w.items.waiting.erase g = gs := by
      rw [hwaiting]
      exact List.erase_cons_head g gs
    rw [if_pos hmem]
    refine ⟨h.isOpen, h.linked, hwaits, ⟨fun g' get' hget' hfired' => ?_, h.queue.nodup.erase g, ?_⟩,
      ⟨herror, herase, hun⟩, hkept, fun hs => hs.elim⟩
    · have hne : g' ≠ g := by
        rintro rfl
        rw [hget] at hget'
        cases hget'
        exact hfired hfired'
      exact (List.mem_erase_of_ne hne).mpr (h.queue.queued g' get' hget' hfired')
    · exact fun _ => h.queue.empty (List.ne_nil_of_mem hmem)
  case h_8 hphase =>
    rw [hphase] at hgets hwaits hkept
    obtain ⟨_, hrested, hpaid, _⟩ := hwaits
    exact ⟨h.isOpen, h.linked, ⟨hrested, hpaid⟩, h.queue, hgets, hkept, fun hs => hs.elim⟩
  case h_9 d ds hphase =>
    obtain ⟨w', heq, hw'⟩ := h.callback hphase
    rw [heq]
    exact hw'
  case h_10 d ds hphase =>
    rw [hphase] at hgets hwaits hkept
    have hmem : d ∈ w.waits.waiting := hwaits.2.2.2.2.2 List.mem_cons_self
    rw [if_pos hmem]
    exact ⟨h.isOpen, h.linked.erase hwaits.1, hwaits.erase_woken h.linked.nodup, h.queue, hgets,
      hkept, fun hs => hs.elim⟩

end Inv

/-! ### Whole runs -/

/-- A response comes while nobody in `waiting` has timed out. -/
def Prompt (w : World V) : Event V → Prop
  | .respond _ => ∀ d ∈ w.waits.waiting, ¬w.waits.Fired d
  | _ => True

theorem phase_of_quiet {w : World V} (h : w.Quiet) : w.phase = .idle := by
  unfold World.Quiet at h
  cases hphase : w.phase <;> simp_all

theorem Inv.step {w w' : World V} {e : Event V} (h : Inv w) (he : Prompt w e)
    (hstep : step w e = some w') : Inv w' := by
  unfold Cursor.step at hstep
  rw [if_neg (by simp [h.isOpen])] at hstep
  have husers (users : ℕ) : Inv { w with users } :=
    ⟨h.isOpen, h.linked, h.waits, h.queue, h.gets, h.kept, h.cached⟩
  cases e with
  | enter =>
    simp only at hstep
    split at hstep <;> cases hstep
    exact husers 1
  | leave =>
    simp only at hstep
    split at hstep <;> cases hstep
    exact husers _
  | fetchNext timed =>
    simp only at hstep
    split at hstep <;> cases hstep
    exact h.fetchNext timed
  | next timed =>
    simp only at hstep
    split at hstep <;> cases hstep
    exact h.getNext timed
  | timer f =>
    simp only at hstep
    split at hstep
    · rename_i hquiet
      split at hstep <;> cases hstep
      · rename_i hcancel
        exact h.timer (phase_of_quiet hquiet.1) hcancel 1
      · exact h
    · cases hstep
  | nextTimer g =>
    simp only at hstep
    split at hstep <;> cases hstep
    rename_i hquiet
    exact h.cancelGet (phase_of_quiet hquiet.1) g
  | respond res =>
    simp only at hstep
    split at hstep <;> cases hstep
    rename_i hdue
    obtain ⟨hquiet, hcached, _, hres⟩ := hdue
    exact h.respond (phase_of_quiet hquiet) hres hcached he
  | resume =>
    simp only at hstep
    split at hstep <;> cases hstep
    exact h.resume

theorem inv_opened (query : Query V) (first : Response V) : Inv (opened query first) where
  isOpen := rfl
  linked := by
    constructor <;> simp [opened]
  waits := by
    constructor
    · rintro d ⟨f, hf⟩
      simp [opened] at hf
    · intro d hd
      cases hd
  queue := by
    constructor <;> simp [opened]
  gets := by
    intro g hg
    cases hg
  kept := by
    simp [opened, Phase.data]
  cached := fun hs => hs.elim

structure Usable (w : World V) : Prop where
  isOpen : w.closing = false
  once : ∀ c ∈ w.waits.fetches, c.fired.length ≤ 1
  expired : ∀ c ∈ w.waits.fetches, c.expired = true ↔ c.fired = [.timeout]
  timer : w.Quiet → ∀ (f : ℕ) (c : Fetch), w.waits.fetches[f]? = some c → c.timed = true →
    c.fired = [] → ∃ w' c', step w (.timer f) = some w' ∧ w'.waits.fetches[f]? = some c' ∧
      c'.fired = [.timeout]
  waiting : w.Quiet → ∀ c ∈ w.waits.fetches, c.fired = [] →
    w.items.pending = [] ∧ w.error = none ∧
      ∃ d ∈ w.waits.waiting, c.wait = some d ∧ w.waits.Unfired d
  woken : w.Quiet → ∀ d ∈ w.owed, w.waits.Fired d
  kept : w.Quiet → w.received = w.items.delivered ++ w.items.pending

/-- A timer that runs on a pending call ends it. -/
theorem Inv.cancel {w : World V} (h : Inv w) {f : ℕ} {c : Fetch}
    (hc : w.waits.fetches[f]? = some c) (hfired : c.fired = []) :
    ∃ s c', w.waits.cancel f = some s ∧ s.fetches[f]? = some c' ∧ c'.fired = [.timeout] := by
  obtain ⟨d, _, hwait, hd⟩ := h.linked.waits f c hc hfired (by simp)
  refine ⟨((w.waits.call d).expire f).fire f .timeout,
    { c with fired := c.fired ++ [.timeout], expired := true }, ?_, ?_, by simp [hfired]⟩
  · simp [Waits.cancel, hc, hwait, hd]
  · simp [Waits.fire, Waits.expire, Waits.call, hc]

theorem usable_of_prompt {query : Query V} {w : World V}
    (h : (machine query).ReachedBy Prompt w) : Usable w := by
  have hinv : Inv w := h.invariant
    (fun w hw => by
      obtain ⟨first, _, rfl⟩ := hw
      exact inv_opened query first)
    fun w e w' _ hw he hstep => hw.step he hstep
  have hbare (hquiet : w.Quiet) : Rested (w.items.pending = [] ∧ w.error = none) w.waits [] ∧
      Paid w.owed w.waits [] := by
    have hwaits := hinv.waits
    rw [phase_of_quiet hquiet] at hwaits
    exact hwaits
  exact {
    isOpen := hinv.isOpen
    once := by
      intro c hc
      obtain ⟨f, hf⟩ := List.mem_iff_getElem?.mp hc
      exact (hinv.linked.once f c hf).1
    expired := by
      intro c hc
      obtain ⟨f, hf⟩ := List.mem_iff_getElem?.mp hc
      exact (hinv.linked.once f c hf).2
    timer := by
      intro hquiet f c hc htimed hfired
      obtain ⟨s, c', hs, hc', hfired'⟩ := hinv.cancel hc hfired
      refine ⟨{ w with waits := s, users := 1 }, c', ?_, hc', hfired'⟩
      simp [Cursor.step, hinv.isOpen, hquiet, hc, htimed, hs]
    waiting := by
      intro hquiet c hc hfired
      obtain ⟨f, hf⟩ := List.mem_iff_getElem?.mp hc
      obtain ⟨d, hmem, hwait, hd⟩ := hinv.linked.waits f c hf hfired (by simp)
      rcases (hbare hquiet).1 d ⟨f, hd⟩ with hnil | ⟨hpending, herror⟩
      · cases hnil
      · exact ⟨hpending, herror, d, hmem, hwait, f, hd⟩
    woken := by
      intro hquiet d hd
      exact ((hbare hquiet).2 d hd).resolve_right (by simp)
    kept := by
      intro hquiet
      rw [hinv.kept, phase_of_quiet hquiet, Phase.data, List.append_nil]
      simp }

/-! ### A late response -/

theorem fetchLoop_keeps (f : ℕ) (w : World V) :
    (w.fetchLoop f).closing = w.closing ∧ ∀ d, w.waits.Fired d → (w.fetchLoop f).waits.Fired d := by
  unfold World.fetchLoop
  split
  · obtain ⟨n, heq⟩ := maybeFetchBatch_eq w
    rw [heq]
    refine ⟨rfl, fun d hd => ?_⟩
    obtain ⟨g, hg⟩ := hd
    exact ⟨g, (List.getElem?_append_left (List.getElem?_eq_some_iff.mp hg).1).trans hg⟩
  · exact ⟨rfl, fun d hd => hd⟩

theorem callback_keeps {w w' : World V} {d : ℕ} (h : w.callback d = some w') :
    w'.closing = w.closing ∧ ¬w.waits.Fired d ∧ ∀ d, w.waits.Fired d → w'.waits.Fired d := by
  unfold World.callback at h
  obtain ⟨waiter, hwaiter, h⟩ := Option.bind_eq_some_iff.mp h
  split at h
  · cases h
  · rename_i hcalled
    cases h
    obtain ⟨hclosing, hfired⟩ := fetchLoop_keeps waiter.fetch { w with waits := w.waits.call d }
    refine ⟨hclosing, ?_, fun d' hd' => hfired d' (WaitPhase.fired_of_fired hd')⟩
    rintro ⟨f, hf⟩
    rw [hwaiter] at hf
    cases hf
    exact hcalled rfl

theorem put_keeps {w w' : World V} {v : V} (h : w.put v = some w') :
    w'.closing = w.closing ∧ w'.waits = w.waits := by
  unfold World.put at h
  split at h
  · split at h
    · cases h
    · cases h
      exact ⟨rfl, rfl⟩
  · cases h
    exact ⟨rfl, rfl⟩

variable {query : Query V}

/-- The run can come to a state in which the connection is closed. -/
def Breaks (query : Query V) (w : World V) : Prop :=
  ∃ w', (machine query).Leads w w' ∧ w'.closing = true

theorem breaks_of_step {w w' : World V} {e : Event V} (hstep : step w e = some w')
    (h : Breaks query w') : Breaks query w := by
  obtain ⟨w'', hleads, hclosing⟩ := h
  exact ⟨w'', (Machine.Leads.single hstep).trans hleads, hclosing⟩

theorem breaks_of_closing {w : World V} (h : w.closing = true) : Breaks query w :=
  ⟨w, Relation.ReflTransGen.refl, h⟩

/-- The user's functions return, and `_extend` goes on. -/
theorem breaks_of_resume {w : World V} (hopen : w.closing = false)
    (h : Breaks query ({ w with users := 0 } : World V).resume) : Breaks query w := by
  generalize hn : w.users = n
  induction n generalizing w with
  | zero =>
    have heq : ({ w with users := 0 } : World V) = w := by
      rw [← hn]
    rw [heq] at h
    refine breaks_of_step (e := .resume) ?_ h
    simp [step, hopen, hn]
  | succ n ih =>
    let left : World V := { w with users := w.users - 1 }
    have hleft : step w .leave = some left := by simp [step, hopen, hn, left]
    exact breaks_of_step hleft (ih hopen h (by simp [hn, left]))

/-- The loop comes to a Deferred that has been fired. -/
theorem breaks_wake {w : World V} {ds : List ℕ} (hopen : w.closing = false)
    (hphase : w.phase = .wake ds) (h : ∃ d ∈ ds, w.waits.Fired d) : Breaks query w := by
  induction ds generalizing w with
  | nil =>
    obtain ⟨d, hd, _⟩ := h
    cases hd
  | cons d ds ih =>
    refine breaks_of_resume hopen ?_
    unfold World.resume
    simp only [hphase]
    split
    · rename_i w' hcallback
      obtain ⟨hclosing, hnot, hkeeps⟩ := callback_keeps hcallback
      obtain ⟨d', hd', hfired⟩ := h
      have hne : d' ≠ d := by
        rintro rfl
        exact hnot hfired
      have hmem : d' ∈ ds := List.mem_of_ne_of_mem hne hd'
      refine breaks_of_resume (hclosing.trans hopen) ?_
      simp only [World.resume]
      split
      · exact ih (hclosing.trans hopen) rfl ⟨d', hmem, hkeeps d' hfired⟩
      · exact breaks_of_closing rfl
    · exact breaks_of_closing rfl

/-- Some Deferred in the list has been fired. -/
def Stale (w : World V) : Prop := ∃ d ∈ w.waits.waiting, w.waits.Fired d

theorem breaks_cancel {w : World V} {err : Exn V} {gs : List ℕ} (hopen : w.closing = false)
    (hphase : w.phase = .cancel err gs) (h : Stale w) : Breaks query w := by
  induction gs generalizing w with
  | nil =>
    refine breaks_of_resume hopen ?_
    unfold World.resume
    simp only [hphase]
    exact breaks_wake hopen rfl h
  | cons g gs ih =>
    have hcancelled : ∀ w : World V, w.closing = false → w.phase = .cancelled g err gs → Stale w →
        Breaks query w := by
      intro w hopen hphase h
      refine breaks_of_resume hopen ?_
      unfold World.resume
      simp only [hphase]
      split
      · exact ih hopen rfl h
      · exact breaks_of_closing rfl
    refine breaks_of_resume hopen ?_
    unfold World.resume
    simp only [hphase]
    split
    · exact hcancelled _ hopen rfl h
    · exact hcancelled _ hopen rfl h

theorem breaks_stored {w : World V} (hopen : w.closing = false) (hphase : w.phase = .stored)
    (h : Stale w) : Breaks query w := by
  refine breaks_of_resume hopen ?_
  unfold World.resume
  simp only [hphase]
  unfold World.leaveStored
  split
  · exact breaks_wake hopen rfl h
  · split
    · split
      · exact breaks_cancel hopen rfl h
      · exact breaks_of_closing rfl
    · exact breaks_cancel hopen rfl h

theorem breaks_put {w : World V} {data : List V} {last : Bool} (hopen : w.closing = false)
    (hphase : w.phase = .put data last) (h : Stale w) : Breaks query w := by
  induction data generalizing w with
  | nil =>
    refine breaks_of_resume hopen ?_
    unfold World.resume
    simp only [hphase]
    exact breaks_stored hopen rfl h
  | cons v data ih =>
    refine breaks_of_resume hopen ?_
    unfold World.resume
    simp only [hphase]
    split
    · rename_i w' hput
      obtain ⟨hclosing, hwaits⟩ := put_keeps hput
      refine ih (hclosing.trans hopen) rfl ?_
      unfold Stale
      rw [hwaits]
      exact h
    · exact breaks_of_closing rfl

theorem breaks_respond {w : World V} (hopen : w.closing = false) (h : Stale w) (res : Response V) :
    Breaks query (w.respond res) := by
  obtain ⟨n, heq⟩ := maybeFetchBatch_eq
    { w with outstandingRequests := w.outstandingRequests - 1 }
  unfold World.respond
  simp only [heq]
  split
  · exact breaks_stored hopen rfl h
  · split
    · exact breaks_put hopen rfl h
    · exact breaks_put hopen rfl h
    · split
      · exact breaks_stored hopen rfl h
      · exact breaks_of_closing rfl

/-- In a run of prompt responses `fetch_next` leaves the connection usable, and any other response
leads to its end. -/
theorem usable_iff_prompt (query : Query V) :
    (∀ w, (machine query).ReachedBy Prompt w → Usable w) ∧
      ∀ w e w', (machine query).Reachable w → ¬Prompt w e → (machine query).step w e w' →
        ∃ w'', (machine query).Leads w' w'' ∧ w''.closing = true ∧ ¬Usable w'' := by
  constructor
  · exact fun w h => usable_of_prompt h
  · intro w e w' _ hlate hstep
    cases e with
    | respond res =>
      have hstale : Stale w := by
        by_contra hnot
        exact hlate fun d hd hfired => hnot ⟨d, hd, hfired⟩
      have hstep : step w (.respond res) = some w' := hstep
      unfold step at hstep
      split at hstep
      · cases hstep
      · rename_i hopen
        simp only at hstep
        split at hstep <;> cases hstep
        have hbreaks : Breaks query (w.respond res) :=
          breaks_respond (Bool.eq_false_iff.mpr hopen) hstale res
        obtain ⟨w'', hleads, hclosing⟩ := hbreaks
        refine ⟨w'', hleads, hclosing, fun husable => ?_⟩
        have := husable.isOpen
        rw [hclosing] at this
        cases this
    | _ => exact absurd trivial hlate

/-! ### Two runs -/

section Runs

def feed : Query ℕ := ⟨.start, 1, none, .ok [], none, false⟩

def batch (data : List ℕ) : Response ℕ :=
  ⟨⟨.successPartial, data, none, none, none⟩, 1⟩

theorem feed_opened : (machine feed).init (opened feed (batch [])) :=
  ⟨batch [], .inl rfl, rfl⟩

/-- A response wakes a call, its item is taken, and the next call times out. -/
theorem usable_iff_prompt_feed :
    ∃ w, (machine feed).ReachedBy Prompt w ∧
      w.waits.fetches.map Fetch.fired = [[.result true], [.timeout]] ∧
      w.items.delivered = [5] ∧ Usable w := by
  have run {w w' : World ℕ} {e : Event ℕ} (h : (machine feed).ReachedBy Prompt w)
      (hstep : step w e = some w') (hprompt : Prompt w e) :
      (machine feed).ReachedBy Prompt w' := .step h hprompt hstep
  have h := run (e := .enter) (.init feed_opened) rfl trivial
  have h := run (e := .fetchNext true) h rfl trivial
  have h := run (e := .leave) h rfl trivial
  have h := run (e := .respond (batch [5])) h rfl fun d hd => by
    rw [List.mem_singleton.mp hd]
    rintro ⟨f, hf⟩
    cases hf
  have h := run (e := .resume) h rfl trivial
  have h := run (e := .resume) h rfl trivial
  have h := run (e := .resume) h rfl trivial
  have h := run (e := .resume) h rfl trivial
  have h := run (e := .next false) h rfl trivial
  have h := run (e := .fetchNext true) h rfl trivial
  have h := run (e := .leave) h rfl trivial
  have h := run (e := .resume) h rfl trivial
  have h := run (e := .resume) h rfl trivial
  have h := run (e := .timer 1) h rfl trivial
  exact ⟨_, h, rfl, rfl, (usable_iff_prompt feed).1 _ h⟩

def run (w : World V) : List (Event V) → Option (World V)
  | [] => some w
  | e :: es => (step w e).bind fun w' => run w' es

theorem reachable_run {query : Query V} {w w' : World V} {es : List (Event V)}
    (hw : (machine query).Reachable w) (h : run w es = some w') :
    (machine query).Reachable w' := by
  exact hw.run (fun _ => rfl) (fun _ _ _ => rfl) (fun _ _ _ hstep => hstep)
    (fun _ _ _ => trivial) h

/-- A call of `fetch_next` times out, and the next response closes the connection. -/
theorem response_after_timeout_closes :
    ∃ w, (machine feed).Reachable w ∧ w.waits.fetches.map Fetch.fired = [[.timeout]] ∧
      w.received = [5] ∧ w.closing = true ∧ ¬Usable w := by
  let events : List (Event ℕ) :=
    [.enter, .fetchNext true, .leave, .timer 0, .leave, .respond (batch [5]), .resume, .resume,
      .resume, .resume]
  have hrun : ∃ w, run (opened feed (batch [])) events = some w ∧
      w.waits.fetches.map Fetch.fired = [[.timeout]] ∧ w.received = [5] ∧ w.closing = true :=
    ⟨_, rfl, rfl, rfl, rfl⟩
  obtain ⟨w, hw, hfired, hreceived, hclosing⟩ := hrun
  refine ⟨w, reachable_run (.init feed_opened) hw, hfired, hreceived, hclosing, fun husable => ?_⟩
  have hopen := husable.isOpen
  rw [hclosing] at hopen
  cases hopen

end Runs

end RethinkDB.Twisted.Cursor
