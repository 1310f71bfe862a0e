import RethinkDB.Async.Traffic
import RethinkDB.Net.Accounting

/-! What cancelling one query of the asyncio driver does to the others. -/
namespace RethinkDB.Async
open RethinkDB.Lib Net Prog

variable {V : Type}

namespace Traffic

/-- `state` is the outcome of the first response the reader had under the token of `q`. -/
def Settles (T : Traffic V) (q : Query V) (state : FutureState V) : Prop :=
  ∃ payload m id, T.heard.find? (·.1 = q.token) = some (q.token, payload) ∧
    T.inst.getJsonDecoder q payload = .ok m ∧
    Instance.verdict q id { m with token := q.token } = .ok state ∧
    (Response.IsBatch { m with token := q.token } → ∃ c, T.inst.cursors[id]? = some c ∧ c.query = q)

/-- The reader is at work, and every call that was not cancelled has its own outcome, or waits for it. -/
structure Undisturbed (T : Traffic V) : Prop where
  failure : T.failure = none
  told : ∀ t q future, T.calls.lookup t = some ⟨q, .waiting future⟩ → t ∉ T.cancelled →
    (T.heard.find? (·.1 = q.token) = none ∧ T.inst.futures[future]? = some .pending) ∨
      ∃ state, T.inst.futures[future]? = some state ∧ T.Settles q state

/-- The reader takes no response to a cancelled query. -/
def Spared (T : Traffic V) : TrafficStep V → Prop
  | .read => ∀ t payload rest, T.incoming = (t, payload) :: rest → t ∉ T.cancelled
  | _ => True

/-! ### The futures -/

/-- What the future of a call says. -/
inductive Reported (T : Traffic V) (t : ℤ) (q : Query V) (future : ℕ) : Prop
  | waits : T.inst.userQueries.lookup t = some (q, future) → T.heard.find? (·.1 = t) = none →
      T.inst.futures[future]? = some (if t ∈ T.cancelled then .cancelled else .pending) →
      Reported T t q future
  | settled {state} : T.inst.userQueries.lookup t = none → t ∉ T.cancelled →
      T.inst.futures[future]? = some state → T.Settles q state → Reported T t q future

structure Told (T : Traffic V) : Prop where
  waiting : ∀ t caller, T.calls.lookup t = some caller →
    ∃ future, caller.phase = .waiting future ∧ T.Reported t caller.query future
  apart : ∀ t t' q q' future, T.calls.lookup t = some ⟨q, .waiting future⟩ →
    T.calls.lookup t' = some ⟨q', .waiting future⟩ → t = t'
  cancelled : ∀ t ∈ T.cancelled, T.calls.lookup t ≠ none
  heard : ∀ f ∈ T.heard, T.calls.lookup f.1 ≠ none
  answers : ∀ t payload caller, (t, payload) ∈ T.incoming → T.calls.lookup t = some caller →
    Conforming (T.inst.getJsonDecoder caller.query payload)

variable {T T' : Traffic V} {t : ℤ}

theorem Told.reported (h : T.Told) {q : Query V} {future : ℕ}
    (hcall : T.calls.lookup t = some ⟨q, .waiting future⟩) : T.Reported t q future := by
  obtain ⟨future', hphase, hreported⟩ := h.waiting t _ hcall
  cases hphase
  exact hreported

theorem Told.undisturbed (h : T.Told) (hbalanced : T.Balanced) (hnone : T.failure = none) :
    T.Undisturbed where
  failure := hnone
  told := by
    intro t q future hcall hspared
    have hstation := hbalanced.station t
    unfold Station at hstation
    rw [hcall] at hstation
    obtain ⟨rfl, -⟩ := hstation
    cases h.reported hcall with
    | waits _ hfind hfuture =>
      rw [if_neg hspared] at hfuture
      exact .inl ⟨hfind, hfuture⟩
    | settled _ _ hfuture hsettles => exact .inr ⟨_, hfuture, hsettles⟩

/-- Outcomes stay when more is heard and no cursor changes hands. -/
theorem Settles.mono {q : Query V} {state : FutureState V} (h : T.Settles q state)
    {more : List (ℤ × Bytes)} (hheard : T'.heard = T.heard ++ more)
    (hdecoder : T'.inst.jsonDecoder = T.inst.jsonDecoder)
    (hcursors : ∀ (id : ℕ) (c : Cursor V), T.inst.cursors[id]? = some c →
      ∃ c', T'.inst.cursors[id]? = some c' ∧ c'.query = c.query) : T'.Settles q state := by
  obtain ⟨payload, m, id, hfind, hdecode, hverdict, hbatch⟩ := h
  refine ⟨payload, m, id, ?_, ?_, hverdict, ?_⟩
  · rw [hheard, List.find?_append, hfind]
    exact rfl
  · unfold Instance.getJsonDecoder at *
    rw [hdecoder]
    exact hdecode
  · intro hres
    obtain ⟨c, hc, rfl⟩ := hbatch hres
    exact hcursors id c hc

structure Unmoved (t : ℤ) (T T' : Traffic V) : Prop where
  calls : T'.calls.lookup t = T.calls.lookup t
  queries : T'.inst.userQueries.lookup t = T.inst.userQueries.lookup t
  cancelled : t ∈ T'.cancelled ↔ t ∈ T.cancelled
  futures : ∀ q future, T.calls.lookup t = some ⟨q, .waiting future⟩ →
    ∀ state, T.inst.futures[future]? = some state → T'.inst.futures[future]? = some state
  heard : ∃ more, T'.heard = T.heard ++ more ∧ ∀ f ∈ more, f.1 ≠ t
  decoder : T'.inst.jsonDecoder = T.inst.jsonDecoder
  cursors : ∀ (id : ℕ) (c : Cursor V), T.inst.cursors[id]? = some c →
      ∃ c', T'.inst.cursors[id]? = some c' ∧ c'.query = c.query

theorem Unmoved.reported (h : Unmoved t T T') {q : Query V} {future : ℕ}
    (hcall : T.calls.lookup t = some ⟨q, .waiting future⟩) (hr : T.Reported t q future) :
    T'.Reported t q future := by
  obtain ⟨more, hheard, hmore⟩ := h.heard
  cases hr with
  | waits hqueries hfind hfuture =>
    apply Reported.waits
    · exact h.queries.trans hqueries
    · rw [hheard, List.find?_append, hfind, Option.none_or]
      simpa using hmore
    · apply h.futures q future hcall
      simp only [h.cancelled]
      exact hfuture
  | settled hqueries hspared hfuture hsettles =>
    apply Reported.settled
    · exact h.queries.trans hqueries
    · rw [h.cancelled]
      exact hspared
    · exact h.futures q future hcall _ hfuture
    · exact hsettles.mono hheard h.decoder h.cursors

/-- A step that concerns one token at most. -/
theorem Told.update (h : T.Told) (t : ℤ) (hothers : ∀ t', t' ≠ t → Unmoved t' T T')
    (hdecoder : T'.inst.jsonDecoder = T.inst.jsonDecoder)
    (hcall : ∀ caller, T'.calls.lookup t = some caller →
      ∃ future, caller.phase = .waiting future ∧ T'.Reported t caller.query future ∧
        ∀ t' q, t' ≠ t → T.calls.lookup t' ≠ some ⟨q, .waiting future⟩)
    (hcancelled : t ∈ T'.cancelled → T'.calls.lookup t ≠ none)
    (hheard : ∀ f ∈ T'.heard, f ∈ T.heard ∧ f.1 ≠ t ∨ T'.calls.lookup f.1 ≠ none)
    (hanswers : ∀ t' payload caller, (t', payload) ∈ T'.incoming → T'.calls.lookup t' = some caller →
      ((t', payload) ∈ T.incoming ∧ T.calls.lookup t' = some caller) ∨
        Conforming (T.inst.getJsonDecoder caller.query payload)) :
    T'.Told where
  waiting := by
    intro t' caller hcaller
    by_cases ht : t' = t
    · subst ht
      obtain ⟨future, hphase, hreported, -⟩ := hcall caller hcaller
      exact ⟨future, hphase, hreported⟩
    · have hsame := hothers t' ht
      rw [hsame.calls] at hcaller
      obtain ⟨future, hphase, hreported⟩ := h.waiting t' caller hcaller
      obtain ⟨q, phase⟩ := caller
      subst hphase
      exact ⟨future, rfl, hsame.reported hcaller hreported⟩
  apart := by
    intro t₁ t₂ q₁ q₂ future h₁ h₂
    by_cases ht₁ : t₁ = t
    · subst ht₁
      by_contra hne
      obtain ⟨future', hphase, -, hown⟩ := hcall _ h₁
      cases hphase
      rw [(hothers t₂ (Ne.symm hne)).calls] at h₂
      exact hown t₂ q₂ (Ne.symm hne) h₂
    · by_cases ht₂ : t₂ = t
      · subst ht₂
        obtain ⟨future', hphase, -, hown⟩ := hcall _ h₂
        cases hphase
        rw [(hothers t₁ ht₁).calls] at h₁
        exact absurd h₁ (hown t₁ q₁ ht₁)
      · rw [(hothers t₁ ht₁).calls] at h₁
        rw [(hothers t₂ ht₂).calls] at h₂
        exact h.apart t₁ t₂ q₁ q₂ future h₁ h₂
  cancelled := by
    intro t' ht'
    by_cases ht : t' = t
    · subst ht
      exact hcancelled ht'
    · rw [(hothers t' ht).calls]
      exact h.cancelled t' ((hothers t' ht).cancelled.mp ht')
  heard := by
    intro f hf
    rcases hheard f hf with ⟨hold, hne⟩ | hknown
    · rw [(hothers f.1 hne).calls]
      exact h.heard f hold
    · exact hknown
  answers := by
    intro t' payload caller hin hcaller
    have hsame : T'.inst.getJsonDecoder caller.query = T.inst.getJsonDecoder caller.query := by
      unfold Instance.getJsonDecoder
      rw [hdecoder]
    rw [hsame]
    rcases hanswers t' payload caller hin hcaller with ⟨hold, hknown⟩ | hconforming
    · exact h.answers t' payload caller hold hknown
    · exact hconforming

/-- A step that concerns no call. -/
theorem Told.frame (h : T.Told) (hsame : ∀ t, Unmoved t T T') (hheard : T'.heard = T.heard)
    (hanswers : ∀ t' payload caller, (t', payload) ∈ T'.incoming → T.calls.lookup t' = some caller →
      (t', payload) ∈ T.incoming ∨ Conforming (T.inst.getJsonDecoder caller.query payload)) :
    T'.Told := by
  apply h.update 0
  · exact fun t _ => hsame t
  · exact (hsame 0).decoder
  · intro caller hcaller
    rw [(hsame 0).calls] at hcaller
    obtain ⟨future, hphase, hreported⟩ := h.waiting 0 caller hcaller
    obtain ⟨q, phase⟩ := caller
    subst hphase
    refine ⟨future, rfl, (hsame 0).reported hcaller hreported, ?_⟩
    intro t q' ht hcall
    exact ht (h.apart t 0 q' q future hcall hcaller)
  · intro hin
    rw [(hsame 0).calls]
    exact h.cancelled 0 ((hsame 0).cancelled.mp hin)
  · intro f hf
    right
    rw [(hsame f.1).calls]
    rw [hheard] at hf
    exact h.heard f hf
  · intro t payload caller hin hcaller
    rw [(hsame t).calls] at hcaller
    rcases hanswers t payload caller hin hcaller with hold | hconforming
    · exact .inl ⟨hold, hcaller⟩
    · exact .inr hconforming

theorem Reported.lt {q : Query V} {future : ℕ} (h : T.Reported t q future) :
    future < T.inst.futures.length := by
  cases h with
  | waits _ _ hfuture => exact (List.getElem?_eq_some_iff.mp hfuture).1
  | settled _ _ hfuture _ => exact (List.getElem?_eq_some_iff.mp hfuture).1

theorem Told.call (h : T.Told) (hbalanced : T.Balanced) {query : Query V}
    (htoken : query.token = T.nextToken) : (T.call .asyncio query).Told := by
  have hfresh : T.calls.lookup query.token = none := by
    by_contra hne
    have := hbalanced.tokens _ hne
    omega
  have hne : ∀ t, T.calls.lookup t ≠ none → t ≠ query.token := by
    rintro t ht rfl
    exact ht hfresh
  have hkeep : ∀ (future : ℕ) (state : FutureState V), T.inst.futures[future]? = some state →
      (T.inst.futures ++ [.pending])[future]? = some state := by
    intro future state hfuture
    rw [List.getElem?_append_left (List.getElem?_eq_some_iff.mp hfuture).1]
    exact hfuture
  apply h.update query.token
  · intro t ht
    exact ⟨AList.lookup_insert_ne ht, AList.lookup_insert_ne ht, Iff.rfl,
      fun _ future _ state hfuture => hkeep future state hfuture,
      ⟨[], (List.append_nil _).symm, nofun⟩, rfl, fun id c hc => ⟨c, hc, rfl⟩⟩
  · exact rfl
  · intro caller hcaller
    change AList.lookup _ (T.calls.insert query.token _) = _ at hcaller
    rw [AList.lookup_insert] at hcaller
    obtain rfl := Option.some.inj hcaller
    refine ⟨T.inst.futures.length, rfl, ?_, ?_⟩
    · apply Reported.waits
      · exact AList.lookup_insert _
      · rw [List.find?_eq_none]
        intro f hf heq
        exact hne f.1 (h.heard f hf) (by simpa using heq)
      · have hspared : query.token ∉ T.cancelled := fun hin => h.cancelled _ hin hfresh
        change (T.inst.futures ++ [.pending])[_]? = some (if query.token ∈ T.cancelled then _ else _)
        rw [if_neg hspared]
        simp
    · intro t q ht hcall
      exact absurd (h.reported hcall).lt (lt_irrefl _)
  · intro _
    change AList.lookup _ (AList.insert _ _ _) ≠ none
    rw [AList.lookup_insert]
    nofun
  · intro f hf
    exact .inl ⟨hf, hne f.1 (h.heard f hf)⟩
  · intro t payload caller hin hcaller
    left
    have hdue : T.due t ≠ 0 := by
      have : t ∈ T.incoming.map Prod.fst := List.mem_map.mpr ⟨_, hin, rfl⟩
      have := List.count_pos_iff.mpr this
      unfold due
      omega
    have ht : t ≠ query.token := by
      rintro rfl
      rw [htoken] at hdue
      exact hdue hbalanced.fresh_token.due
    refine ⟨hin, ?_⟩
    rw [← hcaller]
    exact (AList.lookup_insert_ne ht).symm

/-- An outcome is neither pending nor cancelled. -/
theorem verdict_done {query : Query V} {id : ℕ} {res : Response V} {state : FutureState V}
    (h : Instance.verdict query id res = .ok state) : state ≠ .pending ∧ state ≠ .cancelled := by
  have hmap : ∀ {α : Type} {x : Except (Exn V) α} {f : α → FutureState V}, x.map f = .ok state →
      (∀ a, f a ≠ .pending ∧ f a ≠ .cancelled) → state ≠ .pending ∧ state ≠ .cancelled := by
    intro α x f hx hf
    obtain ⟨a, -, rfl⟩ := map_eq_ok.mp hx
    exact hf a
  unfold Instance.verdict at h
  split at h
  · exact hmap h (by simp)
  · cases h
    simp
  · cases h
    simp
  · cases h
    simp
  · exact hmap h (by simp)
  · exact hmap h (by simp)

theorem Told.cancel (h : T.Told) {query : Query V} {future : ℕ}
    (hcall : T.calls.lookup t = some ⟨query, .waiting future⟩)
    (hpending : T.inst.futures[future]? = some .pending) :
    Told { T with
      inst := { T.inst with futures := T.inst.futures.set future .cancelled }
      cancelled := T.cancelled ++ [t] } := by
  have hlt : future < T.inst.futures.length := (List.getElem?_eq_some_iff.mp hpending).1
  apply h.update t
  · intro t' ht
    refine ⟨rfl, rfl, by simp [ht], ?_, ⟨[], (List.append_nil _).symm, nofun⟩, rfl,
      fun id c hc => ⟨c, hc, rfl⟩⟩
    intro q future' hcall' state hstate
    have hne : future ≠ future' := by
      rintro rfl
      exact ht (h.apart _ _ _ _ _ hcall' hcall)
    rw [List.getElem?_set_ne hne]
    exact hstate
  · exact rfl
  · intro caller hcaller
    obtain rfl : ⟨query, .waiting future⟩ = caller := Option.some.inj (hcall.symm.trans hcaller)
    refine ⟨future, rfl, ?_, ?_⟩
    · cases h.reported hcall with
      | waits hqueries hfind _ => exact .waits hqueries hfind (by simp [hlt])
      | settled _ _ hfuture hsettles =>
        obtain ⟨payload, m, id, -, -, hverdict, -⟩ := hsettles
        cases hpending.symm.trans hfuture
        exact absurd rfl (verdict_done hverdict).1
    · intro t' q ht hcall'
      exact ht (h.apart _ _ _ _ _ hcall' hcall)
  · intro _ hnone
    cases hcall.symm.trans hnone
  · intro f hf
    exact .inr (h.heard f hf)
  · intro t' payload caller hin hcaller
    exact .inl ⟨hin, hcaller⟩

/-! ### The reader -/

variable {payload : Bytes} {rest : List (ℤ × Bytes)}

theorem arranged_cursors (s : Instance V) (query : Query V) (res : Response V) :
    ∃ more, (s.arranged query res).cursors = s.cursors ++ more ∧
      (res.IsBatch → ∃ c, more = [c] ∧ c.query = query) := by
  unfold Instance.arranged
  by_cases hbatch : res.IsBatch
  · rw [if_pos hbatch]
    refine ⟨[.opened query (s.getJsonDecoder query) res], rfl, fun _ => ⟨_, rfl, ?_⟩⟩
    rw [Cursor.opened_batch hbatch]
    exact rfl
  · rw [if_neg hbatch]
    exact ⟨[], (List.append_nil _).symm, fun h => absurd h hbatch⟩

/-- A step of the reader that concerns one call. -/
theorem Told.take (h : T.Told) (hin : T.incoming = (t, payload) :: rest) {q : Query V} {future : ℕ}
    (hcall : T.calls.lookup t = some ⟨q, .waiting future⟩) {inst : Instance V}
    (hothers : ∀ t', t' ≠ t → Unmoved t' T (T.taken t payload rest inst none))
    (hdecoder : inst.jsonDecoder = T.inst.jsonDecoder)
    (hreported : (T.taken t payload rest inst none).Reported t q future) :
    (T.taken t payload rest inst none).Told := by
  apply h.update t hothers hdecoder
  · intro caller hcaller
    obtain rfl : ⟨q, .waiting future⟩ = caller := Option.some.inj (hcall.symm.trans hcaller)
    refine ⟨future, rfl, hreported, ?_⟩
    intro t' q' ht hcall'
    exact ht (h.apart _ _ _ _ _ hcall' hcall)
  · intro _ hnone
    cases hcall.symm.trans hnone
  · intro f hf
    right
    rcases List.mem_append.mp hf with hold | hnew
    · exact h.heard f hold
    · obtain rfl := List.mem_singleton.mp hnew
      intro hnone
      cases hcall.symm.trans hnone
  · intro t' payload' caller hmem hcaller
    left
    refine ⟨?_, hcaller⟩
    rw [hin]
    exact List.mem_cons_of_mem _ hmem

/-- The reader gives a waiting query its outcome. -/
theorem Told.settled (h : T.Told) (hin : T.incoming = (t, payload) :: rest) {q : Query V} {future : ℕ}
    (hcall : T.calls.lookup t = some ⟨q, .waiting future⟩) (htoken : q.token = t)
    (hqueries : T.inst.userQueries.lookup t = some (q, future)) (hspared : t ∉ T.cancelled)
    {m : Message V} {state : FutureState V} (hdecode : T.inst.getJsonDecoder q payload = .ok m)
    (hverdict : Instance.verdict q T.inst.cursors.length { m with token := q.token } = .ok state) :
    (T.taken t payload rest (T.inst.settled q future { m with token := q.token } state) none).Told := by
  subst htoken
  obtain ⟨more, hmore, hbatch⟩ := arranged_cursors T.inst q { m with token := q.token }
  have hcursors : (T.inst.settled q future { m with token := q.token } state).cursors =
      T.inst.cursors ++ more := hmore
  have hdecoder : (T.inst.settled q future { m with token := q.token } state).jsonDecoder =
      T.inst.jsonDecoder := T.inst.arranged_jsonDecoder q { m with token := q.token }
  have hkeep : ∀ (id : ℕ) (c : Cursor V), T.inst.cursors[id]? = some c → ∃ c',
      (T.inst.settled q future { m with token := q.token } state).cursors[id]? = some c' ∧
        c'.query = c.query := by
    intro id c hc
    refine ⟨c, ?_, rfl⟩
    rw [hcursors, List.getElem?_append_left (List.getElem?_eq_some_iff.mp hc).1]
    exact hc
  have hlt := (h.reported hcall).lt
  apply h.take hin hcall
  · intro t' ht
    refine ⟨rfl, AList.lookup_erase_ne ht, Iff.rfl, ?_, ⟨[(q.token, payload)], rfl, by simp [Ne.symm ht]⟩,
      hdecoder, hkeep⟩
    intro q' future' hcall' state' hstate'
    have hne : future ≠ future' := by
      rintro rfl
      exact ht (h.apart _ _ _ _ _ hcall' hcall)
    change (T.inst.futures.set future state)[future']? = some state'
    rw [List.getElem?_set_ne hne]
    exact hstate'
  · exact hdecoder
  · cases h.reported hcall with
    | settled hnone _ _ _ => cases hqueries.symm.trans hnone
    | waits _ hfind _ =>
      have hfuture : (T.inst.futures.set future state)[future]? = some state := by simp [hlt]
      refine .settled (AList.lookup_erase _ _) hspared hfuture
        ⟨payload, m, T.inst.cursors.length, ?_, ?_, hverdict, ?_⟩
      · change (T.heard ++ [(q.token, payload)]).find? _ = _
        rw [List.find?_append, hfind]
        simp
      · unfold Instance.getJsonDecoder at *
        rw [← hdecode]
        exact congrArg (fun d => q.jsonDecoder.getD d payload) hdecoder
      · intro hres
        obtain ⟨c, rfl, hquery⟩ := hbatch hres
        refine ⟨c, ?_, hquery⟩
        change (T.inst.settled q future _ state).cursors[_]? = _
        rw [hcursors]
        simp

/-- The reader gives a cursor its batch. -/
theorem Told.extended (h : T.Told) (hin : T.incoming = (t, payload) :: rest) {q : Query V} {future id : ℕ}
    {c c' : Cursor V} (hcall : T.calls.lookup t = some ⟨q, .waiting future⟩)
    (hstreams : T.Streams t q id c) (hquery : c'.query = c.query) :
    (T.taken t payload rest (T.inst.extended id c c') none).Told := by
  have hkeep : ∀ (id' : ℕ) (c₁ : Cursor V), T.inst.cursors[id']? = some c₁ → ∃ c₂,
      (T.inst.cursors.set id c')[id']? = some c₂ ∧ c₂.query = c₁.query := by
    intro id' c₁ hc₁
    by_cases hid : id = id'
    · subst hid
      obtain rfl : c = c₁ := Option.some.inj (hstreams.cursor.symm.trans hc₁)
      exact ⟨c', by simp [(List.getElem?_eq_some_iff.mp hc₁).1], hquery⟩
    · exact ⟨c₁, by rw [List.getElem?_set_ne hid]; exact hc₁, rfl⟩
  apply h.take hin hcall
  · intro t' ht
    exact ⟨rfl, rfl, Iff.rfl, fun _ _ _ _ hstate => hstate,
      ⟨[(t, payload)], rfl, by simp [Ne.symm ht]⟩, rfl, hkeep⟩
  · exact rfl
  · cases h.reported hcall with
    | waits hqueries _ _ => cases hqueries.symm.trans hstreams.queries
    | settled hqueries hspared hfuture hsettles =>
      exact .settled hqueries hspared hfuture (hsettles.mono rfl rfl hkeep)

/-- A conforming answer has an outcome. -/
theorem verdict_conforming {m : Message V} (hexplained : m.Explained)
    (hdata : m.type = .successAtom ∨ m.type = .serverInfo → m.data ≠ []) (query : Query V) (id : ℕ)
    (token : ℤ) : ∃ state, Instance.verdict query id { m with token } = .ok state := by
  obtain ⟨e, he, -⟩ := Response.makeError_explained { m with token } hexplained query
  unfold Instance.verdict
  split
  · rename_i htype
    obtain ⟨v, hv⟩ := Driver.firstDatum_of { m with token } (hdata (.inl htype))
    exact ⟨_, by rw [hv]; exact rfl⟩
  · exact ⟨_, rfl⟩
  · exact ⟨_, rfl⟩
  · exact ⟨_, rfl⟩
  · rename_i htype
    obtain ⟨v, hv⟩ := Driver.firstDatum_of { m with token } (hdata (.inr htype))
    exact ⟨_, by rw [hv]; exact rfl⟩
  · exact ⟨_, by rw [he]; exact rfl⟩

/-- One turn of the reader over a response that is not to a cancelled query. -/
theorem Told.read (h : T.Told) (hbalanced : T.Balanced) (hin : T.incoming = (t, payload) :: rest)
    (hspared : t ∉ T.cancelled) {o : Outcome (Exn V) Unit} {inst : Instance V}
    (hframe : Instance.handleFrame .asyncio t payload T.inst = (o, inst)) :
    o = .ok () ∧ (T.taken t payload rest inst none).Told := by
  obtain ⟨q, phase, hcall, htoken, hstands⟩ := hbalanced.addressee hin
  obtain ⟨m, hdecode, hexplained, hdata⟩ := h.answers t payload _ (by simp [hin]) hcall
  obtain ⟨future, rfl, hreported⟩ : ∃ future, phase = .waiting future ∧ T.Reported t q future :=
    h.waiting t _ hcall
  rcases hstands with ⟨hhanded, -⟩ | ⟨future', hphase, hwaits | ⟨id, c, hstreams⟩⟩
  · cases hhanded
  · cases hphase
    subst htoken
    obtain ⟨state, hverdict⟩ := verdict_conforming hexplained hdata q T.inst.cursors.length q.token
    have hpending : T.inst.futures[future]? = some .pending := by
      cases hreported with
      | waits _ _ hfuture =>
        rw [if_neg hspared] at hfuture
        exact hfuture
      | settled hnone _ _ _ => cases hnone.symm.trans hwaits.queries
    rw [Instance.handleFrame_settles hbalanced.isOpen hwaits.cache hwaits.queries hdecode hverdict
      (.inl hpending)] at hframe
    obtain ⟨rfl, rfl⟩ := Prod.mk.inj hframe
    exact ⟨rfl, h.settled hin hcall rfl hwaits.queries hspared hdecode hverdict⟩
  · cases hphase
    have hcached := hstreams.cached htoken
    have hdecode' : c.jsonDecoder payload = .ok m := by
      rw [hstreams.decoder]
      exact hdecode
    obtain ⟨error, hstore, -⟩ := c.answered.fetch.store_explained { m with token := c.query.token } hexplained
    have hextend := Instance.extend_of hbalanced.isOpen hstreams.cursor hcached hdecode' hstore
    rw [Instance.handleFrame_cursor hstreams.cache, hextend] at hframe
    obtain ⟨rfl, rfl⟩ := Prod.mk.inj hframe
    have hquery : c.answered.fetch.query = c.query := by
      unfold Cursor.fetch
      split <;> exact rfl
    exact ⟨rfl, h.extended hin hcall hstreams hquery⟩

/-- And over one that is. -/
theorem Told.read_cancelled (h : T.Told) (hbalanced : T.Balanced)
    (hin : T.incoming = (t, payload) :: rest) (hcancelled : t ∈ T.cancelled) :
    wp (Instance.handleFrame .asyncio t payload) (fun o _ => o = .error (.foreign "invalid state"))
      T.inst := by
  obtain ⟨q, phase, hcall, htoken, hstands⟩ := hbalanced.addressee hin
  obtain ⟨m, hdecode, hexplained, hdata⟩ := h.answers t payload _ (by simp [hin]) hcall
  obtain ⟨future, rfl, hreported⟩ : ∃ future, phase = .waiting future ∧ T.Reported t q future :=
    h.waiting t _ hcall
  cases hreported with
  | settled _ hspared _ _ => exact absurd hcancelled hspared
  | waits hqueries _ hfuture =>
    rw [if_pos hcancelled] at hfuture
    rcases hstands with ⟨hhanded, -⟩ | ⟨future', hphase, hwaits | ⟨id, c, hstreams⟩⟩
    · cases hhanded
    · subst htoken
      obtain ⟨state, hverdict⟩ := verdict_conforming hexplained hdata q T.inst.cursors.length q.token
      apply Instance.handleFrame_invalid hbalanced.isOpen hwaits.cache hqueries hdecode hverdict
      · decide
      · rw [hfuture]
        nofun
    · cases hqueries.symm.trans hstreams.queries

/-! ### Runs -/

theorem Fresh.told (h : T.Fresh) : T.Told where
  waiting := by
    intro t caller hcaller
    rw [h.calls, AList.lookup_empty] at hcaller
    cases hcaller
  apart := by
    intro t t' q q' future hcall
    rw [h.calls, AList.lookup_empty] at hcall
    cases hcall
  cancelled := by simp [h.cancelled]
  heard := by simp [h.heard]
  answers := by simp [h.incoming]

/-- A step of one cursor, before it is sent anything. -/
theorem Told.cursor (h : T.Told) {id : ℕ} {c c' : Cursor V} (hc : T.inst.cursors[id]? = some c)
    (hquery : c'.query = c.query) (unsent : List ℤ) :
    Told { T with inst := { T.inst with cursors := T.inst.cursors.set id c', unsent } } := by
  apply h.frame
  · intro t
    refine ⟨rfl, rfl, Iff.rfl, fun _ _ _ _ hstate => hstate, ⟨[], (List.append_nil _).symm, nofun⟩, rfl, ?_⟩
    intro id' c₁ hc₁
    by_cases hid : id = id'
    · subst hid
      obtain rfl : c = c₁ := Option.some.inj (hc.symm.trans hc₁)
      exact ⟨c', by simp [(List.getElem?_eq_some_iff.mp hc₁).1], hquery⟩
    · refine ⟨c₁, ?_, rfl⟩
      change (T.inst.cursors.set id c')[id']? = _
      rw [List.getElem?_set_ne hid]
      exact hc₁
  · exact rfl
  · exact fun _ _ _ hin _ => .inl hin

/-- A step that moves messages along. -/
theorem Told.moved (h : T.Told) (hcalls : T'.calls = T.calls) (hheard : T'.heard = T.heard)
    (hcancelled : T'.cancelled = T.cancelled)
    (hinst : T'.inst = { T.inst with unsent := T'.inst.unsent })
    (hanswers : ∀ t' payload caller, (t', payload) ∈ T'.incoming → T.calls.lookup t' = some caller →
      (t', payload) ∈ T.incoming ∨ Conforming (T.inst.getJsonDecoder caller.query payload)) :
    T'.Told := by
  apply h.frame
  · intro t
    have hcursors : T'.inst.cursors = T.inst.cursors := by rw [hinst]
    have hfutures : T'.inst.futures = T.inst.futures := by rw [hinst]
    refine ⟨by rw [hcalls], by rw [hinst], by rw [hcancelled], ?_, ⟨[], by simp [hheard], nofun⟩,
      by rw [hinst], ?_⟩
    · rw [hfutures]
      exact fun _ _ _ _ hstate => hstate
    · rw [hcursors]
      exact fun id c hc => ⟨c, hc, rfl⟩
  · exact hheard
  · exact hanswers

/-- Every step but those of the reader. -/
theorem Told.step {i : TrafficStep V} (h : T.Told) (hbalanced : T.Balanced)
    (hstep : Step .asyncio Conforming T i T') (hread : i ≠ .read) : T'.Told := by
  cases hstep with
  | call _ htoken => exact h.call hbalanced htoken
  | silent => exact h.moved rfl rfl rfl rfl fun _ _ _ hin _ => .inl hin
  | handOver _ hcall =>
    obtain ⟨future, hphase, -⟩ := h.waiting _ _ hcall
    cases hphase
  | resume _ hcall =>
    obtain ⟨future, hphase, -⟩ := h.waiting _ _ hcall
    cases hphase
  | cancel _ _ hcall hpending => exact h.cancel hcall hpending
  | @fetch id inst _ hlt hfetch =>
    have hc : T.inst.cursors[id]? = some T.inst.cursors[id] := List.getElem?_eq_getElem hlt
    rw [Instance.maybeFetchBatch_of hbalanced.isOpen hc] at hfetch
    obtain rfl := (Prod.mk.inj hfetch).2
    have hquery : T.inst.cursors[id].fetch.query = T.inst.cursors[id].query := by
      unfold Cursor.fetch
      split <;> exact rfl
    exact h.cursor hc hquery _
  | next _ hc _ =>
    apply h.cursor hc
    exact rfl
  | @closeCursor id inst _ hlt hclose =>
    have hc : T.inst.cursors[id]? = some T.inst.cursors[id] := List.getElem?_eq_getElem hlt
    by_cases herr : T.inst.cursors[id].error = none
    · rw [Instance.closeCursor_of hbalanced.isOpen hc herr] at hclose
      obtain rfl := (Prod.mk.inj hclose).2
      apply h.cursor hc
      exact rfl
    · rw [Instance.closeCursor_done hc herr] at hclose
      obtain rfl := (Prod.mk.inj hclose).2
      exact h
  | sendRequest _ _ => exact h.moved rfl rfl rfl rfl fun _ _ _ hin _ => .inl hin
  | answer _ _ hcaller hconforming =>
    refine h.moved rfl rfl rfl rfl ?_
    intro t payload caller hin hcaller'
    rcases List.mem_append.mp hin with hold | hnew
    · exact .inl hold
    · obtain ⟨rfl, rfl⟩ := Prod.mk.inj (List.mem_singleton.mp hnew)
      obtain rfl := Option.some.inj (hcaller.symm.trans hcaller')
      exact .inr hconforming
  | read _ _ _ => exact absurd rfl hread

/-- As long as the reader has raised nothing, every future says what it should. -/
theorem told_of_reachable (h : (machine .asyncio Conforming).Reachable T) : T.failure = none → T.Told := by
  apply h.invariant
  · exact fun _ hfresh _ => hfresh.told
  · intro T i T' hreachable htold _ hstep hnone
    have hbefore : T.failure = none := by cases hstep <;> assumption
    have hbalanced := balanced_of_reachable hreachable hbefore
    by_cases hread : i = .read
    · subst hread
      cases hstep with
      | @read t payload rest o inst _ hin hframe =>
        by_cases hcancelled : t ∈ T.cancelled
        · have hinvalid := (htold hbefore).read_cancelled hbalanced hin hcancelled
          rw [wp_of_eq hframe] at hinvalid
          subst hinvalid
          cases hnone
        · obtain ⟨rfl, hok⟩ := (htold hbefore).read hbalanced hin hcancelled hframe
          exact hok
    · exact (htold hbefore).step hbalanced hstep hread

/-- As long as no response to a cancelled query is read, the reader is at work and every other query
has its own outcome; and the first such response ends the reader. -/
theorem undisturbed_iff_spared :
    (∀ T : Traffic V, (machine .asyncio Conforming).ReachedBy Spared T → T.Undisturbed) ∧
    ∀ (T : Traffic V) i T', (machine .asyncio Conforming).Reachable T → ¬T.Spared i →
      Step .asyncio Conforming T i T' →
        T'.failure = some (.foreign "invalid state") ∧ ¬T'.Undisturbed := by
  constructor
  · intro T h
    have hnone : T.failure = none := by
      apply h.invariant
      · exact fun _ hfresh => hfresh.failure
      · intro T i T' hreached hnone hok hstep
        have hreachable : (machine .asyncio Conforming).Reachable T := hreached.mono fun _ _ _ => trivial
        cases hstep with
        | @read t payload rest o inst _ hin hframe =>
          obtain ⟨rfl, -⟩ := (told_of_reachable hreachable hnone).read
            (balanced_of_reachable hreachable hnone) hin (hok t payload rest hin) hframe
          exact rfl
        | _ => exact hnone
    have hreachable : (machine .asyncio Conforming).Reachable T := h.mono fun _ _ _ => trivial
    exact (told_of_reachable hreachable hnone).undisturbed (balanced_of_reachable hreachable hnone) hnone
  · intro T i T' hreachable hlate hstep
    cases hstep with
    | @read t payload rest o inst hnone hin hframe =>
      simp only [Spared, not_forall, not_not] at hlate
      obtain ⟨t', payload', rest', hin', hcancelled⟩ := hlate
      obtain ⟨⟨rfl, rfl⟩, rfl⟩ : (t = t' ∧ payload = payload') ∧ rest = rest' := by
        simpa using hin.symm.trans hin'
      have hinvalid := (told_of_reachable hreachable hnone).read_cancelled
        (balanced_of_reachable hreachable hnone) hin hcancelled
      rw [wp_of_eq hframe] at hinvalid
      subst hinvalid
      refine ⟨rfl, ?_⟩
      intro hundisturbed
      cases hundisturbed.failure
    | _ => exact absurd trivial hlate

def waited : Traffic ℕ := started.call .asyncio lookupQuery

def abandoned : Traffic ℕ :=
  { waited with
    inst := { waited.inst with futures := waited.inst.futures.set 0 .cancelled }
    cancelled := waited.cancelled ++ [1] }

def answeredLate : Traffic ℕ := { abandoned with owed := [], incoming := [(1, [])] }

theorem answeredLate_reached : (machine .asyncio Conforming).ReachedBy Spared answeredLate := by
  have hcall : Step .asyncio Conforming started (.call lookupQuery) waited := .call rfl rfl
  have hcancel : Step .asyncio Conforming waited (.cancel 1) abandoned := by
    have hwaiting : waited.calls.lookup 1 = some ⟨lookupQuery, .waiting 0⟩ := AList.lookup_insert _
    exact .cancel rfl rfl hwaiting rfl
  have hanswer : Step .asyncio Conforming abandoned (.answer 1 []) answeredLate := by
    have howed : abandoned.owed = [] ++ 1 :: [] := rfl
    have hconforming : Conforming (abandoned.inst.getJsonDecoder lookupQuery []) :=
      ⟨_, rfl, by simp [Message.Explained], by simp⟩
    exact .answer rfl howed (AList.lookup_insert _) hconforming
  have hcalls : started.Spared (.call lookupQuery) := trivial
  have hcancels : waited.Spared (.cancel 1) := trivial
  have hanswers : abandoned.Spared (.answer 1 []) := trivial
  exact .step (.step (.step (.init started_fresh) hcalls hcall) hcancels hcancel) hanswers hanswer

def disturbed : Traffic ℕ :=
  answeredLate.taken 1 [] [] (Instance.handleFrame .asyncio 1 [] answeredLate.inst).2
    (failed (Instance.handleFrame .asyncio 1 [] answeredLate.inst).1)

theorem answeredLate_read :
    ¬answeredLate.Spared .read ∧ Step .asyncio Conforming answeredLate .read disturbed := by
  constructor
  · intro hspared
    apply hspared 1 [] [] rfl
    exact List.mem_singleton.mpr rfl
  · exact .read rfl rfl rfl

theorem undisturbed_iff_spared_late :
    answeredLate.Undisturbed ∧ disturbed.failure = some (.foreign "invalid state") ∧
      ¬disturbed.Undisturbed := by
  have hreachable : (machine .asyncio Conforming).Reachable answeredLate :=
    answeredLate_reached.mono fun _ _ _ => trivial
  obtain ⟨hlate, hstep⟩ := answeredLate_read
  exact ⟨undisturbed_iff_spared.1 answeredLate answeredLate_reached,
    undisturbed_iff_spared.2 answeredLate _ disturbed hreachable hlate hstep⟩

/-- One cancelled query and its answer end the reader of the whole connection. -/
theorem disturbed_reachable :
    (machine .asyncio Conforming).Reachable disturbed ∧
      disturbed.failure = some (.foreign "invalid state") ∧ ¬disturbed.Undisturbed := by
  have hreachable : (machine .asyncio Conforming).Reachable answeredLate :=
    answeredLate_reached.mono fun _ _ _ => trivial
  have hfailure : disturbed.failure = some (.foreign "invalid state") := by
    have hcache : answeredLate.inst.cursorCache.lookup 1 = none := AList.lookup_empty 1
    have hqueries : answeredLate.inst.userQueries.lookup 1 = some (lookupQuery, 0) := AList.lookup_insert _
    have hstrict : Driver.Strict .asyncio := by decide
    have hdone : answeredLate.inst.futures[0]? ≠ some .pending := by decide
    have hdecode : answeredLate.inst.getJsonDecoder lookupQuery [] =
        .ok ⟨.successAtom, [7], none, none, none⟩ := rfl
    exact congrArg failed (Instance.handleFrame_invalid rfl hcache hqueries hdecode rfl hstrict hdone)
  refine ⟨.step hreachable trivial answeredLate_read.2, hfailure, ?_⟩
  intro hundisturbed
  cases hfailure.symm.trans hundisturbed.failure

end Traffic
end RethinkDB.Async
