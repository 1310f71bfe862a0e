import RethinkDB.Gevent.World
import RethinkDB.Async.Cancellation
import RethinkDB.Net.Demux

/-! The `run_query` of the gevent driver and that of the blocking driver: the same response, the same
outcome. -/
namespace RethinkDB.Net.Driver
open RethinkDB.Lib Prog

variable {V : Type} {P : Peer V}

/-- What `run_query` does with the response to its query. -/
def answerTo (query : Query V) (payload : Bytes) : Call P (Reply V) := do
  let decoder ← read fun d => d.getJsonDecoder query
  let res ← ofExcept (Response.ofJson query.token payload decoder)
  replyTo query res

/-- `run_query`, once the frame of its response has come. -/
theorem wp_runQuery_answerTo {d d₀ d₁ : Driver P} {query : Query V} {payload : Bytes}
    (hsend : sendQuery query d = (.ok (), d₀))
    (hframe : readFrame none d₀ = (.ok (query.token, payload), d₁))
    (hcache : d₁.cursorCache.lookup query.token = none)
    {Q : Outcome (Exn V) (Reply V) → Driver P → Prop} :
    wp (runQuery query false) Q d ↔ wp (answerTo query payload) Q
      { d₁ with handed := d₁.handed ++ [(query.token, payload, .query)] } := by
  unfold runQuery answerTo
  rw [wp_bind_of_eq hsend, if_neg Bool.false_ne_true, wp_bind]
  unfold readResponse
  rw [wp_bind, wp_read, bindPost_ok]
  unfold readLoop
  rw [wp_bind_of_eq hframe]
  dsimp only
  rw [wp_bind, wp_read, bindPost_ok, hcache]
  dsimp only
  rw [if_pos rfl, wp_bind, hand, wp_modify, bindPost_ok, wp_bind, wp_read, bindPost_ok, wp_bind]
  change wp (ofExcept (Response.ofJson query.token payload (d₁.getJsonDecoder query))) _ _ ↔
    wp (ofExcept (Response.ofJson query.token payload (d₁.getJsonDecoder query)) >>= replyTo query) Q _
  cases Response.ofJson query.token payload (d₁.getJsonDecoder query) with
  | ok res => exact Iff.rfl
  | error e => exact Iff.rfl

end RethinkDB.Net.Driver

namespace RethinkDB.Gevent
open RethinkDB.Lib Net Prog Async

variable {V : Type}

/-- The same reply, the cursors of one side on the heap `here` and those of the other on `there`. -/
inductive SameReply (here there : List (Cursor V)) : Reply V → Reply V → Prop
  | none : SameReply here there .none .none
  | value (v : V) : SameReply here there (.value v) (.value v)
  | cursor {id id' : ℕ} {c : Cursor V} : here[id]? = some c → there[id']? = some c →
      SameReply here there (.cursor id) (.cursor id')
  | profiled {r r' : Reply V} (profile : V) : SameReply here there r r' →
      SameReply here there (.profiled r profile) (.profiled r' profile)

/-- What a greenlet waiting for the future gets is how the blocking call ends. -/
def SameOutcome (here there : List (Cursor V)) : FutureState V → Outcome (Exn V) (Reply V) → Prop
  | .result r, .ok r' => SameReply here there r r'
  | .exception e, .error e' => e = e'
  | _, _ => False

namespace World

/-- The reader is at work, and every query has what the blocking driver makes of its first response, or
waits for it. A token beyond `2 ^ 63` fits no frame. -/
structure Agrees (w : World V) : Prop where
  failure : w.traffic.failure = none
  same : ∀ t q future, w.traffic.calls.lookup t = some ⟨q, .waiting future⟩ → 0 ≤ t → t < 2 ^ 63 →
    (w.traffic.inst.futures[future]? = some .pending ∧
      (w.traffic.heard.find? (·.1 = t) = none ∨ ∃ id res, w.reader = .opening id q future res)) ∨
    ∃ payload state, w.traffic.heard.find? (·.1 = t) = some (t, payload) ∧
      w.traffic.inst.futures[future]? = some state ∧
      ∀ (P : Peer V) (d : Net.Driver P), d.Up → d.jsonDecoder = w.traffic.inst.jsonDecoder →
        wp (Driver.answerTo q payload) (fun o d' => SameOutcome w.born d'.cursors state o) d

/-- The response the reader takes decodes, and is not a `SERVER_INFO` to a query. -/
def Readable (w : World V) : WorldStep V → Prop
  | .read => ∀ t payload rest q phase, w.traffic.incoming = (t, payload) :: rest →
      w.traffic.calls.lookup t = some ⟨q, phase⟩ →
      ∃ m, w.traffic.inst.getJsonDecoder q payload = .ok m ∧
        (w.traffic.inst.cursorCache.lookup t = none → m.type ≠ .serverInfo)
  | _ => True

/-! ### The outcomes -/

/-- `state` is what the first response under the token of `q` says. -/
def Settles (w : World V) (q : Query V) (state : FutureState V) : Prop :=
  ∃ payload m id, w.traffic.heard.find? (·.1 = q.token) = some (q.token, payload) ∧
    w.traffic.inst.getJsonDecoder q payload = .ok m ∧
    Instance.verdict q id { m with token := q.token } = .ok state ∧
    (Response.IsBatch { m with token := q.token } → w.born[id]? =
      some (.opened q (w.traffic.inst.getJsonDecoder q) { m with token := q.token }))

theorem sameReply_profile {here there : List (Cursor V)} {r r' : Reply V}
    (h : SameReply here there r r') (res : Response V) :
    SameReply here there (maybeProfile r res) (maybeProfile r' res) := by
  unfold maybeProfile
  cases res.profile with
  | none => exact h
  | some profile => exact .profiled profile h

/-- `replyTo` says what the verdict says. -/
theorem replyTo_same {P : Peer V} {d : Net.Driver P} (hup : d.Up) {q : Query V}
    (htoken : 0 ≤ q.token ∧ q.token < 2 ^ 63) {res : Response V} {id : ℕ} {state : FutureState V}
    (hverdict : Instance.verdict q id res = .ok state) {born : List (Cursor V)}
    (hborn : res.IsBatch → born[id]? = some (.opened q (d.getJsonDecoder q) res)) :
    wp (Driver.replyTo q res) (fun o d' => SameOutcome born d'.cursors state o) d := by
  have hbatch : res.IsBatch → state = .result (maybeProfile (.cursor id) res) →
      wp (do
        let id ← Driver.newCursor q res
        return maybeProfile (.cursor id) res)
        (fun o d' => SameOutcome born d'.cursors state o) d := by
    intro hres hstate
    rw [wp_bind]
    refine (Driver.newCursor_sent hup htoken hres).mono ?_
    intro o d' hnew
    obtain ⟨rfl, -, hcursors, -⟩ := hnew
    rw [bindPost_ok, wp_pure, hstate]
    have hopened : d'.cursors[d.cursors.length]? = some (.opened q (d.getJsonDecoder q) res) := by
      rw [hcursors, List.getElem?_concat_length]
    exact sameReply_profile (.cursor (hborn hres) hopened) res
  unfold Driver.replyTo
  unfold Instance.verdict at hverdict
  cases htype : res.type with
  | successAtom =>
    rw [htype] at hverdict
    obtain ⟨v, hdatum, rfl⟩ := map_eq_ok.mp hverdict
    dsimp only
    rw [wp_ofExcept_bind_ok hdatum, wp_pure]
    exact sameReply_profile (.value v) res
  | successSequence | successPartial =>
    rw [htype] at hverdict
    exact hbatch (by simp [Response.IsBatch, htype]) (Except.ok.inj hverdict).symm
  | waitComplete =>
    rw [htype] at hverdict
    cases hverdict
    exact SameReply.none
  | serverInfo =>
    rw [htype] at hverdict
    obtain ⟨v, hdatum, rfl⟩ := map_eq_ok.mp hverdict
    dsimp only
    rw [wp_ofExcept_bind_ok hdatum, wp_pure]
    exact SameReply.value v
  | clientError | compileError | runtimeError | other n =>
    rw [htype] at hverdict
    obtain ⟨e, hmade, rfl⟩ := map_eq_ok.mp hverdict
    dsimp only
    rw [wp_ofExcept_bind_ok hmade, wp_throw]
    exact rfl

theorem Settles.same {w : World V} {q : Query V} {state : FutureState V} (h : w.Settles q state)
    (htoken : 0 ≤ q.token ∧ q.token < 2 ^ 63) :
    ∃ payload, w.traffic.heard.find? (·.1 = q.token) = some (q.token, payload) ∧
      ∀ (P : Peer V) (d : Net.Driver P), d.Up → d.jsonDecoder = w.traffic.inst.jsonDecoder →
        wp (Driver.answerTo q payload) (fun o d' => SameOutcome w.born d'.cursors state o) d := by
  obtain ⟨payload, m, id, hfind, hdecode, hverdict, hborn⟩ := h
  refine ⟨payload, hfind, ?_⟩
  intro P d hup hdecoder
  have hsame : d.getJsonDecoder q = w.traffic.inst.getJsonDecoder q := by
    unfold Driver.getJsonDecoder Instance.getJsonDecoder
    rw [hdecoder]
  have hres : Response.ofJson q.token payload (d.getJsonDecoder q) = .ok { m with token := q.token } := by
    rw [Response.ofJson, hsame, hdecode]
  unfold Driver.answerTo
  rw [wp_bind, wp_read, bindPost_ok, wp_ofExcept_bind_ok hres]
  apply replyTo_same hup htoken hverdict
  rw [hsame]
  exact hborn

/-! ### The futures -/

/-- What the future of a call says. -/
inductive Reported (w : World V) (t : ℤ) (q : Query V) (future : ℕ) : Prop
  | waits : w.traffic.inst.userQueries.lookup t = some (q, future) →
      w.traffic.heard.find? (·.1 = t) = none → w.traffic.inst.futures[future]? = some .pending →
      Reported w t q future
  | opening {id : ℕ} {payload : Bytes} {m : Message V} :
      w.reader = .opening id q future { m with token := q.token } →
      w.traffic.heard.find? (·.1 = t) = some (t, payload) →
      w.traffic.inst.getJsonDecoder q payload = .ok m →
      w.traffic.inst.futures[future]? = some .pending → Reported w t q future
  | settled {state : FutureState V} : w.traffic.inst.userQueries.lookup t = none →
      w.traffic.inst.futures[future]? = some state → w.Settles q state → Reported w t q future

/-- What the reader may rely on when it goes on. -/
def ReaderTold (w : World V) : Prop :=
  match w.reader with
  | .receiving => w.born.length = w.traffic.inst.cursors.length
  | .extending id token resBuf => w.born.length = w.traffic.inst.cursors.length ∧
      ∃ c m, w.traffic.inst.cursors[id]? = some c ∧ c.query.token = token ∧
        w.traffic.inst.cursorCache.lookup token = some id ∧ c.jsonDecoder resBuf = .ok m ∧ m.Explained
  | .opening id q future res => w.born.length = id ∧
      w.traffic.inst.cursors[id]? = some (unfilled w.traffic.inst q) ∧
      w.traffic.inst.cursors.length = id + 1 ∧ w.traffic.inst.cursorCache.lookup q.token = some id ∧
      w.traffic.calls.lookup q.token = some ⟨q, .waiting future⟩ ∧
      w.traffic.inst.userQueries.lookup q.token = some (q, future) ∧
      w.traffic.heard.find? (·.1 = q.token) ≠ none ∧ res.IsBatch ∧ res.token = q.token

structure Told (w : World V) : Prop where
  calls : ∀ t caller, w.traffic.calls.lookup t = some caller →
    caller.phase = .sending ∧ w.traffic.heard.find? (·.1 = t) = none ∨
      ∃ future, caller.phase = .waiting future ∧ w.Reported t caller.query future
  apart : ∀ t t' q q' future, w.traffic.calls.lookup t = some ⟨q, .waiting future⟩ →
    w.traffic.calls.lookup t' = some ⟨q', .waiting future⟩ → t = t'
  heard : ∀ f ∈ w.traffic.heard, w.traffic.calls.lookup f.1 ≠ none
  answers : ∀ t payload caller, (t, payload) ∈ w.traffic.incoming →
    w.traffic.calls.lookup t = some caller → Sound (w.traffic.inst.getJsonDecoder caller.query payload)
  reader : w.ReaderTold

variable {w w' : World V} {t : ℤ}

theorem Told.reported (h : w.Told) {q : Query V} {future : ℕ}
    (hcall : w.traffic.calls.lookup t = some ⟨q, .waiting future⟩) : w.Reported t q future := by
  rcases h.calls t _ hcall with ⟨hphase, -⟩ | ⟨future', hphase, hreported⟩
  · cases hphase
  · cases hphase
    exact hreported

theorem Reported.lt {q : Query V} {future : ℕ} (h : w.Reported t q future) :
    future < w.traffic.inst.futures.length := by
  cases h with
  | waits _ _ hfuture => exact (List.getElem?_eq_some_iff.mp hfuture).1
  | opening _ _ _ hfuture => exact (List.getElem?_eq_some_iff.mp hfuture).1
  | settled _ hfuture _ => exact (List.getElem?_eq_some_iff.mp hfuture).1

theorem Told.isApart (h : w.Told) : w.Apart := by
  intro id q future res hreader
  have htold := h.reader
  unfold ReaderTold at htold
  rw [hreader] at htold
  obtain ⟨-, -, -, -, hcall, -⟩ := htold
  exact ⟨future, hcall⟩

theorem Told.agrees (h : w.Told) (hbalanced : w.books.Balanced) (hnone : w.traffic.failure = none) :
    w.Agrees where
  failure := hnone
  same := by
    intro t q future hcall hnonneg hlt
    obtain rfl : q.token = t := by
      have hstation := hbalanced.station t
      have hbooks : w.books.calls.lookup t = some ⟨q, .waiting future⟩ := hcall
      unfold Traffic.Station at hstation
      rw [hbooks] at hstation
      exact hstation.1
    cases h.reported hcall with
    | waits _ hfind hfuture => exact .inl ⟨hfuture, .inl hfind⟩
    | opening hreader _ _ hfuture => exact .inl ⟨hfuture, .inr ⟨_, _, hreader⟩⟩
    | settled _ hfuture hsettles =>
      obtain ⟨payload, hfind, hsame⟩ := hsettles.same ⟨hnonneg, hlt⟩
      exact .inr ⟨payload, _, hfind, hfuture, hsame⟩

structure Unmoved (t : ℤ) (w w' : World V) : Prop where
  calls : w'.traffic.calls.lookup t = w.traffic.calls.lookup t
  queries : w'.traffic.inst.userQueries.lookup t = w.traffic.inst.userQueries.lookup t
  futures : ∀ q future, w.traffic.calls.lookup t = some ⟨q, .waiting future⟩ →
    ∀ state, w.traffic.inst.futures[future]? = some state → w'.traffic.inst.futures[future]? = some state
  heard : ∃ more, w'.traffic.heard = w.traffic.heard ++ more ∧
    ((∀ f ∈ more, f.1 ≠ t) ∨ w.traffic.heard.find? (·.1 = t) ≠ none)
  decoder : w'.traffic.inst.jsonDecoder = w.traffic.inst.jsonDecoder
  born : ∃ more, w'.born = w.born ++ more
  reader : ∀ id q future res, w.reader = .opening id q future res →
    w.traffic.calls.lookup t = some ⟨q, .waiting future⟩ → w'.reader = w.reader

theorem Unmoved.find (h : Unmoved t w w') :
    w'.traffic.heard.find? (·.1 = t) = w.traffic.heard.find? (·.1 = t) := by
  obtain ⟨more, hheard, hmore⟩ := h.heard
  rw [hheard, List.find?_append]
  rcases hmore with hothers | hfound
  · have hnone : more.find? (·.1 = t) = none := by simpa using hothers
    rw [hnone, Option.or_none]
  · obtain ⟨f, hf⟩ := Option.ne_none_iff_exists'.mp hfound
    rw [hf, Option.some_or]

theorem Unmoved.decodes (h : Unmoved t w w') (q : Query V) :
    w'.traffic.inst.getJsonDecoder q = w.traffic.inst.getJsonDecoder q := by
  unfold Instance.getJsonDecoder
  rw [h.decoder]

theorem Unmoved.reported (h : Unmoved t w w') {q : Query V} {future : ℕ} (htoken : q.token = t)
    (hcall : w.traffic.calls.lookup t = some ⟨q, .waiting future⟩) (hr : w.Reported t q future) :
    w'.Reported t q future := by
  cases hr with
  | waits hqueries hfind hfuture =>
    exact .waits (h.queries.trans hqueries) (h.find.trans hfind) (h.futures q future hcall _ hfuture)
  | opening hreader hfind hdecode hfuture =>
    refine .opening ((h.reader _ _ _ _ hreader hcall).trans hreader) (h.find.trans hfind) ?_
      (h.futures q future hcall _ hfuture)
    rw [h.decodes]
    exact hdecode
  | settled hqueries hfuture hsettles =>
    refine .settled (h.queries.trans hqueries) (h.futures q future hcall _ hfuture) ?_
    obtain ⟨payload, m, id, hfind, hdecode, hverdict, hborn⟩ := hsettles
    obtain ⟨more, hmore⟩ := h.born
    refine ⟨payload, m, id, ?_, ?_, hverdict, ?_⟩
    · rw [htoken] at hfind ⊢
      exact h.find.trans hfind
    · rw [h.decodes]
      exact hdecode
    · intro hbatch
      have hold := hborn hbatch
      rw [hmore, List.getElem?_append_left (List.getElem?_eq_some_iff.mp hold).1, h.decodes]
      exact hold

theorem Told.token (hbalanced : w.books.Balanced) {caller : Caller V}
    (hcall : w.traffic.calls.lookup t = some caller) : caller.query.token = t := by
  have hstation := hbalanced.station t
  have hbooks : w.books.calls.lookup t = some caller := hcall
  unfold Traffic.Station at hstation
  rw [hbooks] at hstation
  exact hstation.1

/-- A step that concerns one call at most. -/
theorem Told.update (h : w.Told) (hbalanced : w.books.Balanced) (t : ℤ)
    (hothers : ∀ t', t' ≠ t → Unmoved t' w w')
    (hdecoder : w'.traffic.inst.jsonDecoder = w.traffic.inst.jsonDecoder)
    (hcall : ∀ caller, w'.traffic.calls.lookup t = some caller →
      caller.phase = .sending ∧ w'.traffic.heard.find? (·.1 = t) = none ∨
      ∃ future, caller.phase = .waiting future ∧ w'.Reported t caller.query future ∧
        ∀ t' q, t' ≠ t → w.traffic.calls.lookup t' ≠ some ⟨q, .waiting future⟩)
    (hheard : ∀ f ∈ w'.traffic.heard, w'.traffic.calls.lookup f.1 ≠ none)
    (hanswers : ∀ t' payload caller, (t', payload) ∈ w'.traffic.incoming →
      w'.traffic.calls.lookup t' = some caller →
      Sound (w.traffic.inst.getJsonDecoder caller.query payload))
    (hreader : w'.ReaderTold) : w'.Told where
  calls := by
    intro t' caller hcaller
    by_cases ht : t' = t
    · subst ht
      rcases hcall caller hcaller with hsending | ⟨future, hphase, hreported, -⟩
      · exact .inl hsending
      · exact .inr ⟨future, hphase, hreported⟩
    · have hsame := hothers t' ht
      rw [hsame.calls] at hcaller
      rcases h.calls t' caller hcaller with ⟨hphase, hfind⟩ | ⟨future, hphase, hreported⟩
      · exact .inl ⟨hphase, hsame.find.trans hfind⟩
      · obtain ⟨q, phase⟩ := caller
        subst hphase
        exact .inr ⟨future, rfl, hsame.reported (Told.token hbalanced hcaller) hcaller hreported⟩
  apart := by
    intro t₁ t₂ q₁ q₂ future h₁ h₂
    have hown : ∀ q future, w'.traffic.calls.lookup t = some ⟨q, .waiting future⟩ → ∀ t' q', t' ≠ t →
        w.traffic.calls.lookup t' ≠ some ⟨q', .waiting future⟩ := by
      intro q future hlookup
      rcases hcall _ hlookup with ⟨hphase, -⟩ | ⟨future', hphase, -, hfree⟩
      · cases hphase
      · cases hphase
        exact hfree
    by_cases ht₁ : t₁ = t
    · subst ht₁
      by_contra hne
      rw [(hothers t₂ (Ne.symm hne)).calls] at h₂
      exact hown q₁ future h₁ t₂ q₂ (Ne.symm hne) h₂
    · by_cases ht₂ : t₂ = t
      · subst ht₂
        rw [(hothers t₁ ht₁).calls] at h₁
        exact absurd h₁ (hown q₂ future h₂ t₁ q₁ ht₁)
      · rw [(hothers t₁ ht₁).calls] at h₁
        rw [(hothers t₂ ht₂).calls] at h₂
        exact h.apart t₁ t₂ q₁ q₂ future h₁ h₂
  heard := hheard
  answers := by
    intro t' payload caller hin hcaller
    have hsame : w'.traffic.inst.getJsonDecoder caller.query = w.traffic.inst.getJsonDecoder caller.query := by
      unfold Instance.getJsonDecoder
      rw [hdecoder]
    rw [hsame]
    exact hanswers t' payload caller hin hcaller
  reader := hreader

/-- A step that concerns no call. -/
theorem Told.frame (h : w.Told) (hbalanced : w.books.Balanced) (hsame : ∀ t, Unmoved t w w')
    (hheard : ∀ f ∈ w'.traffic.heard, w.traffic.calls.lookup f.1 ≠ none)
    (hanswers : ∀ t' payload caller, (t', payload) ∈ w'.traffic.incoming →
      w.traffic.calls.lookup t' = some caller →
      Sound (w.traffic.inst.getJsonDecoder caller.query payload))
    (hreader : w'.ReaderTold) : w'.Told := by
  refine h.update hbalanced 0 (fun t _ => hsame t) (hsame 0).decoder ?_ ?_ ?_ hreader
  · intro caller hcaller
    rw [(hsame 0).calls] at hcaller
    rcases h.calls 0 caller hcaller with ⟨hphase, hfind⟩ | ⟨future, hphase, hreported⟩
    · exact .inl ⟨hphase, (hsame 0).find.trans hfind⟩
    · obtain ⟨q, phase⟩ := caller
      subst hphase
      refine .inr ⟨future, rfl,
        (hsame 0).reported (Told.token hbalanced hcaller) hcaller hreported, ?_⟩
      intro t q' ht hcall
      exact ht (h.apart t 0 q' q future hcall hcaller)
  · intro f hf
    rw [(hsame f.1).calls]
    exact hheard f hf
  · intro t payload caller hin hcaller
    rw [(hsame t).calls] at hcaller
    exact hanswers t payload caller hin hcaller

theorem Told.call (h : w.Told) (hbalanced : w.books.Balanced) {query : Query V}
    (htoken : query.token = w.traffic.nextToken) :
    Told { w with traffic := w.traffic.call .trio query } := by
  have hfresh : w.traffic.calls.lookup query.token = none := by
    by_contra hne
    have hlt : query.token < w.traffic.nextToken := hbalanced.tokens _ hne
    omega
  have hne : ∀ t, w.traffic.calls.lookup t ≠ none → t ≠ query.token := by
    intro t ht heq
    rw [heq] at ht
    exact ht hfresh
  have hkept : ∀ t, w.traffic.calls.lookup t ≠ none →
      (w.traffic.call .trio query).calls.lookup t = w.traffic.calls.lookup t :=
    fun t ht => AList.lookup_insert_ne (hne t ht)
  refine h.update hbalanced query.token ?_ rfl ?_ ?_ ?_ ?_
  · intro t ht
    exact ⟨AList.lookup_insert_ne ht, rfl, fun _ _ _ _ hstate => hstate,
      ⟨[], (List.append_nil _).symm, .inl nofun⟩, rfl, ⟨[], (List.append_nil _).symm⟩,
      fun _ _ _ _ _ _ => rfl⟩
  · intro caller hcaller
    left
    have hnew : (w.traffic.call .trio query).calls.lookup query.token = some ⟨query, .sending⟩ :=
      AList.lookup_insert _
    obtain rfl : ⟨query, .sending⟩ = caller := Option.some.inj (hnew.symm.trans hcaller)
    refine ⟨rfl, ?_⟩
    rw [List.find?_eq_none]
    intro f hf heq
    exact hne f.1 (h.heard f hf) (by simpa using heq)
  · intro f hf
    have hknown := h.heard f hf
    change (w.traffic.call .trio query).calls.lookup f.1 ≠ none
    rw [hkept f.1 hknown]
    exact hknown
  · intro t payload caller hin hcaller
    have hdue : w.books.due t ≠ 0 := by
      have hmem : t ∈ w.traffic.incoming.map Prod.fst := List.mem_map.mpr ⟨_, hin, rfl⟩
      have hpos := List.count_pos_iff.mpr hmem
      rw [due_books]
      unfold Traffic.due
      omega
    have ht : t ≠ query.token := by
      rintro rfl
      rw [htoken] at hdue
      exact hdue hbalanced.fresh_token.due
    have hold : (w.traffic.call .trio query).calls.lookup t = w.traffic.calls.lookup t :=
      AList.lookup_insert_ne ht
    exact h.answers t payload caller hin (hold.symm.trans hcaller)
  · have htold := h.reader
    unfold ReaderTold at htold ⊢
    cases hreader : w.reader with
    | receiving | extending _ _ _ =>
      rw [hreader] at htold
      exact htold
    | opening id q future res =>
      rw [hreader] at htold
      obtain ⟨hborn, hc, hlen, hcached, hcall, hres⟩ := htold
      refine ⟨hborn, hc, hlen, hcached, ?_, hres⟩
      exact (hkept q.token (by simp [hcall])).trans hcall

/-- A step of one cursor, before it is sent anything. -/
theorem Told.cursor (h : w.Told) (hbalanced : w.books.Balanced) {id : ℕ} {c c' : Cursor V}
    (hc : w.traffic.inst.cursors[id]? = some c) (hquery : c'.query = c.query)
    (hdecoder : c'.jsonDecoder = c.jsonDecoder) (hhides : ¬w.reader.Hides id) (unsent : List ℤ) :
    Told { w with traffic := { w.traffic with
      inst := { w.traffic.inst with cursors := w.traffic.inst.cursors.set id c', unsent } } } := by
  have hlt : id < w.traffic.inst.cursors.length := (List.getElem?_eq_some_iff.mp hc).1
  refine h.frame hbalanced ?_ h.heard h.answers ?_
  · intro t
    exact ⟨rfl, rfl, fun _ _ _ _ hstate => hstate, ⟨[], (List.append_nil _).symm, .inl nofun⟩, rfl,
      ⟨[], (List.append_nil _).symm⟩, fun _ _ _ _ _ _ => rfl⟩
  · have htold := h.reader
    unfold ReaderTold at htold ⊢
    cases hreader : w.reader with
    | receiving =>
      rw [hreader] at htold
      simpa using htold
    | extending id' token resBuf =>
      rw [hreader] at htold
      obtain ⟨hborn, c₁, m, hc₁, htoken, hcached, hdecode, hexplained⟩ := htold
      refine ⟨by simpa using hborn, ?_⟩
      by_cases hid : id = id'
      · subst hid
        obtain rfl : c = c₁ := Option.some.inj (hc.symm.trans hc₁)
        refine ⟨c', m, by simp [hlt], by rw [hquery, htoken], hcached, ?_, hexplained⟩
        rw [hdecoder]
        exact hdecode
      · exact ⟨c₁, m, by simp [hid, hc₁], htoken, hcached, hdecode, hexplained⟩
    | opening id' q future res =>
      rw [hreader] at htold
      obtain ⟨hborn, hc₁, hlen, hcached, hcall, hres⟩ := htold
      have hid : id ≠ id' := by
        rintro rfl
        rw [hreader] at hhides
        exact hhides rfl
      exact ⟨hborn, (List.getElem?_set_ne hid).trans hc₁, by simpa using hlen, hcached, hcall, hres⟩

/-- A step that moves messages along. -/
theorem Told.moved (h : w.Told) (hbalanced : w.books.Balanced) {T : Traffic V}
    (hcalls : T.calls = w.traffic.calls) (hheard : T.heard = w.traffic.heard)
    (hinst : T.inst = { w.traffic.inst with unsent := T.inst.unsent })
    (hanswers : ∀ t' payload caller, (t', payload) ∈ T.incoming → w.traffic.calls.lookup t' = some caller →
      Sound (w.traffic.inst.getJsonDecoder caller.query payload)) :
    Told { w with traffic := T } := by
  refine h.frame hbalanced ?_ ?_ hanswers ?_
  · intro t
    have hfutures : T.inst.futures = w.traffic.inst.futures := by rw [hinst]
    refine ⟨by rw [hcalls], by rw [hinst], ?_, ⟨[], by rw [hheard, List.append_nil], .inl nofun⟩,
      by rw [hinst], ⟨[], (List.append_nil _).symm⟩, fun _ _ _ _ _ _ => rfl⟩
    intro _ _ _ _ hstate
    rw [hfutures]
    exact hstate
  · rw [hheard]
    exact h.heard
  · have htold := h.reader
    unfold ReaderTold at htold ⊢
    dsimp only
    rw [hinst, hcalls, hheard]
    exact htold

theorem Told.send (h : w.Told) (hbalanced : w.books.Balanced) {query : Query V}
    (hcall : w.traffic.calls.lookup t = some ⟨query, .sending⟩) :
    Told { w with traffic := { w.traffic with
      inst := w.traffic.inst.register query
      calls := w.traffic.calls.insert t ⟨query, .waiting w.traffic.inst.futures.length⟩
      owed := w.traffic.owed ++ [t] } } := by
  obtain ⟨rfl, -, -⟩ := sending_quiet hbalanced hcall
  have hfind : w.traffic.heard.find? (·.1 = query.token) = none := by
    rcases h.calls _ _ hcall with ⟨-, hfind⟩ | ⟨future, hphase, -⟩
    · exact hfind
    · cases hphase
  have hkept : ∀ t', t' ≠ query.token → (w.traffic.calls.insert query.token
      ⟨query, .waiting w.traffic.inst.futures.length⟩).lookup t' = w.traffic.calls.lookup t' :=
    fun t' ht => AList.lookup_insert_ne ht
  refine h.update hbalanced query.token ?_ rfl ?_ ?_ ?_ ?_
  · intro t' ht
    refine ⟨hkept t' ht, AList.lookup_insert_ne ht, ?_, ⟨[], (List.append_nil _).symm, .inl nofun⟩, rfl,
      ⟨[], (List.append_nil _).symm⟩, fun _ _ _ _ _ _ => rfl⟩
    intro q future _ state hstate
    change (w.traffic.inst.futures ++ [.pending])[future]? = some state
    rw [List.getElem?_append_left (List.getElem?_eq_some_iff.mp hstate).1]
    exact hstate
  · intro caller hcaller
    right
    have hnew : (w.traffic.calls.insert query.token ⟨query, .waiting w.traffic.inst.futures.length⟩).lookup
      query.token = some ⟨query, .waiting w.traffic.inst.futures.length⟩ := AList.lookup_insert _
    obtain rfl := Option.some.inj (hnew.symm.trans hcaller)
    refine ⟨w.traffic.inst.futures.length, rfl, .waits (AList.lookup_insert _) hfind ?_, ?_⟩
    · change (w.traffic.inst.futures ++ [.pending])[_]? = _
      rw [List.getElem?_concat_length]
    · intro t' q ht hcall'
      exact absurd (h.reported hcall').lt (lt_irrefl _)
  · intro f hf
    by_cases ht : f.1 = query.token
    · change AList.lookup _ (AList.insert _ _ _) ≠ none
      rw [ht, AList.lookup_insert]
      nofun
    · change AList.lookup _ (AList.insert _ _ _) ≠ none
      rw [hkept _ ht]
      exact h.heard f hf
  · intro t' payload caller hin hcaller
    by_cases ht : t' = query.token
    · subst ht
      have hnew : (w.traffic.calls.insert query.token ⟨query, .waiting w.traffic.inst.futures.length⟩).lookup
        query.token = some ⟨query, .waiting w.traffic.inst.futures.length⟩ := AList.lookup_insert _
      obtain rfl := Option.some.inj (hnew.symm.trans hcaller)
      have hsound := h.answers query.token payload ⟨query, .sending⟩ hin hcall
      exact hsound
    · exact h.answers t' payload caller hin ((hkept t' ht).symm.trans hcaller)
  · have htold := h.reader
    unfold ReaderTold at htold ⊢
    cases hreader : w.reader with
    | receiving | extending _ _ _ =>
      rw [hreader] at htold
      exact htold
    | opening id q future res =>
      rw [hreader] at htold
      obtain ⟨hborn, hc, hlen, hcached, hwaits, hqueries, hres⟩ := htold
      have hne : q.token ≠ query.token := by
        intro heq
        rw [heq] at hwaits
        cases hcall.symm.trans hwaits
      exact ⟨hborn, hc, hlen, hcached, (hkept q.token hne).trans hwaits,
        (AList.lookup_insert_ne hne).trans hqueries, hres⟩

/-! ### The reader -/

variable {payload : Bytes} {rest : List (ℤ × Bytes)} {q : Query V} {future id : ℕ} {c c' : Cursor V}

/-- A turn of the reader that concerns one call. -/
theorem Told.take (h : w.Told) (hbalanced : w.books.Balanced)
    (hin : w.traffic.incoming = (t, payload) :: rest)
    (hcall : w.traffic.calls.lookup t = some ⟨q, .waiting future⟩) {inst : Instance V} {r : Reader V}
    (hothers : ∀ t', t' ≠ t → Unmoved t' w ⟨w.traffic.taken t payload rest inst none, r, w.born⟩)
    (hdecoder : inst.jsonDecoder = w.traffic.inst.jsonDecoder)
    (hreported : Reported ⟨w.traffic.taken t payload rest inst none, r, w.born⟩ t q future)
    (hreader : ReaderTold ⟨w.traffic.taken t payload rest inst none, r, w.born⟩) :
    Told ⟨w.traffic.taken t payload rest inst none, r, w.born⟩ := by
  refine h.update hbalanced t hothers hdecoder ?_ ?_ ?_ hreader
  · intro caller hcaller
    obtain rfl : ⟨q, .waiting future⟩ = caller := Option.some.inj (hcall.symm.trans hcaller)
    refine .inr ⟨future, rfl, hreported, ?_⟩
    intro t' q' ht hcall'
    exact ht (h.apart _ _ _ _ _ hcall' hcall)
  · intro f hf
    rcases List.mem_append.mp hf with hold | hnew
    · exact h.heard f hold
    · obtain rfl := List.mem_singleton.mp hnew
      intro hnone
      cases hcall.symm.trans hnone
  · intro t' payload' caller hmem hcaller
    apply h.answers t' payload' caller ?_ hcaller
    rw [hin]
    exact List.mem_cons_of_mem _ hmem

/-- While the reader receives, a query in the table has heard nothing. -/
theorem Told.unheard (h : w.Told) (hreader : w.reader = .receiving)
    (hcall : w.traffic.calls.lookup t = some ⟨q, .waiting future⟩)
    (hqueries : w.traffic.inst.userQueries.lookup t = some (q, future)) :
    w.traffic.heard.find? (·.1 = t) = none ∧ w.traffic.inst.futures[future]? = some .pending := by
  cases h.reported hcall with
  | waits _ hfind hfuture => exact ⟨hfind, hfuture⟩
  | opening hopening _ _ _ => cases hreader.symm.trans hopening
  | settled hnone _ _ => cases hqueries.symm.trans hnone

/-- The reader gives a query its outcome. -/
theorem Told.settled (h : w.Told) (hbalanced : w.books.Balanced) (hreader : w.reader = .receiving)
    (hin : w.traffic.incoming = (q.token, payload) :: rest)
    (hcall : w.traffic.calls.lookup q.token = some ⟨q, .waiting future⟩)
    (hqueries : w.traffic.inst.userQueries.lookup q.token = some (q, future))
    {m : Message V} {state : FutureState V} (hdecode : w.traffic.inst.getJsonDecoder q payload = .ok m)
    (hbatch : ¬Response.IsBatch { m with token := q.token })
    (hverdict : Instance.verdict q id { m with token := q.token } = .ok state) :
    Told ⟨w.traffic.taken q.token payload rest
      (w.traffic.inst.settled q future { m with token := q.token } state) none, .receiving, w.born⟩ := by
  have hplain : w.traffic.inst.settled q future { m with token := q.token } state = { w.traffic.inst with
      futures := w.traffic.inst.futures.set future state
      userQueries := w.traffic.inst.userQueries.erase q.token } := by
    rw [Instance.settled, Instance.arranged, if_neg hbatch]
  rw [hplain]
  obtain ⟨hfind, hpending⟩ := h.unheard hreader hcall hqueries
  have hlt : future < w.traffic.inst.futures.length := (List.getElem?_eq_some_iff.mp hpending).1
  refine h.take hbalanced hin hcall ?_ rfl ?_ ?_
  · intro t' ht
    refine ⟨rfl, AList.lookup_erase_ne ht, ?_, ⟨[(q.token, payload)], rfl, .inl (by simp [Ne.symm ht])⟩, rfl,
      ⟨[], (List.append_nil _).symm⟩, fun _ _ _ _ _ _ => hreader.symm⟩
    intro q' future' hcall' state' hstate'
    have hne : future ≠ future' := by
      rintro rfl
      exact ht (h.apart _ _ _ _ _ hcall' hcall)
    exact (List.getElem?_set_ne hne).trans hstate'
  · have hfuture : (w.traffic.inst.futures.set future state)[future]? = some state := by simp [hlt]
    refine .settled (AList.lookup_erase _ _) hfuture ⟨payload, m, id, ?_, hdecode, hverdict, ?_⟩
    · change (w.traffic.heard ++ [(q.token, payload)]).find? _ = _
      rw [List.find?_append, hfind]
      simp
    · exact fun hres => absurd hres hbatch
  · have htold := h.reader
    unfold ReaderTold at htold
    rw [hreader] at htold
    exact htold

/-- The reader opens a cursor for a query. -/
theorem Told.opening (h : w.Told) (hbalanced : w.books.Balanced) (hreader : w.reader = .receiving)
    (hin : w.traffic.incoming = (q.token, payload) :: rest)
    (hcall : w.traffic.calls.lookup q.token = some ⟨q, .waiting future⟩)
    (hqueries : w.traffic.inst.userQueries.lookup q.token = some (q, future))
    {m : Message V} (hdecode : w.traffic.inst.getJsonDecoder q payload = .ok m)
    (hbatch : Response.IsBatch { m with token := q.token }) :
    Told ⟨w.traffic.taken q.token payload rest { w.traffic.inst with
        cursors := w.traffic.inst.cursors ++ [unfilled w.traffic.inst q]
        cursorCache := w.traffic.inst.cursorCache.insert q.token w.traffic.inst.cursors.length } none,
      .opening w.traffic.inst.cursors.length q future { m with token := q.token }, w.born⟩ := by
  obtain ⟨hfind, hpending⟩ := h.unheard hreader hcall hqueries
  have hfound : (w.traffic.heard ++ [(q.token, payload)]).find? (·.1 = q.token) =
      some (q.token, payload) := by
    rw [List.find?_append, hfind]
    simp
  refine h.take hbalanced hin hcall ?_ rfl (.opening rfl hfound hdecode hpending) ?_
  · intro t' ht
    exact ⟨rfl, rfl, fun _ _ _ _ hstate => hstate, ⟨[(q.token, payload)], rfl, .inl (by simp [Ne.symm ht])⟩,
      rfl, ⟨[], (List.append_nil _).symm⟩, fun _ _ _ _ hopening _ => by cases hreader.symm.trans hopening⟩
  · have htold := h.reader
    unfold ReaderTold at htold ⊢
    rw [hreader] at htold
    have hheard : (w.traffic.heard ++ [(q.token, payload)]).find? (·.1 = q.token) ≠ none := by
      rw [hfound]
      nofun
    refine ⟨htold, List.getElem?_concat_length, ?_, AList.lookup_insert _, hcall, hqueries, hheard, hbatch,
      rfl⟩
    simp [Traffic.taken]

/-- The reader has a frame for a cursor, whatever it does with it. -/
theorem Told.streamed (h : w.Told) (hbalanced : w.books.Balanced) (hreader : w.reader = .receiving)
    (hin : w.traffic.incoming = (t, payload) :: rest)
    (hcall : w.traffic.calls.lookup t = some ⟨q, .waiting future⟩)
    (hstreams : w.traffic.Streams t q id c) {inst : Instance V} {r : Reader V}
    (hdecoder : inst.jsonDecoder = w.traffic.inst.jsonDecoder)
    (hfutures : inst.futures = w.traffic.inst.futures)
    (hqueries : inst.userQueries = w.traffic.inst.userQueries)
    (hreader' : ReaderTold ⟨w.traffic.taken t payload rest inst none, r, w.born⟩) :
    Told ⟨w.traffic.taken t payload rest inst none, r, w.born⟩ := by
  have hfound : w.traffic.heard.find? (·.1 = t) ≠ none := by
    cases h.reported hcall with
    | waits hwaits _ _ => cases hwaits.symm.trans hstreams.queries
    | opening hopening _ _ _ => cases hreader.symm.trans hopening
    | settled _ _ hsettles =>
      obtain ⟨payload', m, id', hfind, -⟩ := hsettles
      obtain rfl : q.token = t := Told.token hbalanced hcall
      rw [hfind]
      nofun
  refine h.frame hbalanced ?_ ?_ ?_ hreader'
  · intro t'
    refine ⟨rfl, ?_, ?_, ⟨[(t, payload)], rfl, ?_⟩, hdecoder, ⟨[], (List.append_nil _).symm⟩,
      fun _ _ _ _ hopening _ => by cases hreader.symm.trans hopening⟩
    · change inst.userQueries.lookup t' = _
      rw [hqueries]
    · intro _ future' _ state hstate
      change inst.futures[future']? = some state
      rw [hfutures]
      exact hstate
    · by_cases ht : t = t'
      · rw [← ht]
        exact .inr hfound
      · left
        simpa using ht
  · intro f hf
    rcases List.mem_append.mp hf with hold | hnew
    · exact h.heard f hold
    · obtain rfl := List.mem_singleton.mp hnew
      intro hnone
      cases hcall.symm.trans hnone
  · intro t' payload' caller hmem hcaller
    apply h.answers t' payload' caller ?_ hcaller
    rw [hin]
    exact List.mem_cons_of_mem _ hmem

/-- One turn of the reader, over a response it can read. -/
theorem Told.read (h : w.Told) (hbalanced : w.books.Balanced) (hreader : w.reader = .receiving)
    (hin : w.traffic.incoming = (t, payload) :: rest) (hreadable : w.Readable .read)
    {o : Outcome (Exn V) (Reader V)} {inst : Instance V}
    (hframe : handleFrame t payload w.traffic.inst = (o, inst)) :
    ∃ r, o = .ok r ∧ Told ⟨w.traffic.taken t payload rest inst none, r, w.born⟩ ∧
      (books ⟨w.traffic.taken t payload rest inst none, r, w.born⟩).Balanced := by
  have hbooks := hbalanced
  rw [books_receiving hreader] at hbooks
  obtain ⟨q, phase, hcall, htoken, hstands⟩ := hbooks.addressee hin
  obtain ⟨m, hdecode, hinfo⟩ := hreadable t payload rest q phase hin hcall
  obtain ⟨hexplained, hdata⟩ := h.answers t payload ⟨q, phase⟩ (by simp [hin]) hcall m hdecode
  have hborn := h.reader
  unfold ReaderTold at hborn
  rw [hreader] at hborn
  rcases hstands with ⟨rfl, -⟩ | ⟨future, rfl, hwaits | ⟨id, c, hstreams⟩⟩
  · rcases h.calls t _ hcall with ⟨hphase, -⟩ | ⟨future, hphase, -⟩
    · cases hphase
    · cases hphase
  · subst htoken
    rw [handleFrame_query hwaits.cache hwaits.queries hdecode] at hframe
    by_cases hbatch : Response.IsBatch { m with token := q.token }
    · rw [handleResponse_batch hbatch, openCursor_waits hbooks.isOpen] at hframe
      obtain ⟨rfl, rfl⟩ := Prod.mk.inj hframe
      exact ⟨_, rfl, h.opening hbalanced hreader hin hcall hwaits.queries hdecode hbatch,
        balanced_opening hbalanced hreader hin hcall hwaits _ _⟩
    · obtain ⟨state, hverdict⟩ :=
        Traffic.verdict_conforming hexplained hdata q w.traffic.inst.cursors.length q.token
      rw [handleResponse_settles hbatch (hinfo hwaits.cache) hverdict] at hframe
      obtain ⟨rfl, rfl⟩ := Prod.mk.inj hframe
      exact ⟨_, rfl, h.settled hbalanced hreader hin hcall hwaits.queries hdecode hbatch hverdict,
        hbooks.settled hin hcall rfl hwaits _ _⟩
  · have hcursor : c.query.token = t := by rw [hstreams.query, htoken]
    have hdecode' : c.jsonDecoder payload = .ok m := by
      rw [hstreams.decoder]
      exact hdecode
    have hlt : id < w.traffic.inst.cursors.length := (List.getElem?_eq_some_iff.mp hstreams.cursor).1
    rw [handleFrame_cursor hstreams.cache] at hframe
    by_cases hwants : c.answered.WantsBatch
    · rw [extend_waits hbooks.isOpen hstreams.cursor hwants, hcursor] at hframe
      obtain ⟨rfl, rfl⟩ := Prod.mk.inj hframe
      refine ⟨_, rfl, h.streamed hbalanced hreader hin hcall hstreams rfl rfl rfl ?_,
        balanced_extending hbalanced hreader hin hcall htoken hstreams _⟩
      unfold ReaderTold
      refine ⟨by simpa [Traffic.taken] using hborn, c.answered.request, m, ?_, hcursor, hstreams.cache,
        hdecode', hexplained⟩
      simp [Traffic.taken, hlt]
    · obtain ⟨error, hstore, -⟩ :=
        c.answered.fetch.store_explained { m with token := c.query.token } hexplained
      rw [extend_of hbooks.isOpen hstreams.cursor (hstreams.cached htoken) hwants hdecode' hstore] at hframe
      obtain ⟨rfl, rfl⟩ := Prod.mk.inj hframe
      refine ⟨_, rfl, h.streamed hbalanced hreader hin hcall hstreams rfl rfl rfl ?_,
        hbooks.extended hin hcall htoken hstreams hstore⟩
      unfold ReaderTold
      simpa [Traffic.taken, Instance.extended] using hborn

/-- The cursor whose request the reader is sending counts that request. -/
theorem sending_outstanding (hbalanced : w.books.Balanced) (hsending : w.reader.sending = some t)
    (hcached : w.traffic.inst.cursorCache.lookup t = some id) (hc : w.traffic.inst.cursors[id]? = some c) :
    c.outstandingRequests ≠ 0 := by
  have hbooks : w.books.inst.cursorCache.lookup t = some id := by
    simpa [books] using hcached
  obtain ⟨q, future, c₁, -, -, hstreams⟩ := hbalanced.cached hbooks
  have hcursor := hstreams.cursor
  simp only [books, foresee_cursors] at hcursor
  obtain rfl : c = c₁ := Option.some.inj (hc.symm.trans hcursor)
  have hdue : 1 ≤ w.books.due t := by
    rw [due_books, hsending]
    simp
  rw [hstreams.outstanding]
  omega

/-- The turn of the reader goes on to its end. -/
theorem Told.resume (h : w.Told) (hbalanced : w.books.Balanced) (hsending : w.reader.sending = some t)
    {o : Outcome (Exn V) (Reader V)} {inst : Instance V}
    (hrest : w.reader.rest w.traffic.inst = (o, inst)) :
    o = .ok .receiving ∧ (w.resumed t o inst).Told ∧ (w.resumed t o inst).books.Balanced := by
  have htold := h.reader
  unfold ReaderTold at htold
  cases hreader : w.reader with
  | receiving =>
    rw [hreader] at hsending
    cases hsending
  | extending id token resBuf =>
    rw [hreader] at htold hrest
    obtain rfl : token = t := by
      rw [hreader] at hsending
      exact Option.some.inj hsending
    obtain ⟨hborn, c, m, hc, rfl, hcached, hdecode, hexplained⟩ := htold
    obtain ⟨error, hstore, -⟩ := c.store_explained { m with token := c.query.token } hexplained
    have hlive := sending_outstanding hbalanced hsending hcached hc
    have hmem : c.query.token ∈ w.traffic.inst.cursorCache := by
      rw [← AList.lookup_isSome, hcached]
      rfl
    change extendRest id resBuf w.traffic.inst = _ at hrest
    rw [extendRest_of hc hmem hdecode hstore, if_neg (fun hdone => hlive hdone.1)] at hrest
    obtain ⟨rfl, rfl⟩ := Prod.mk.inj hrest
    have hworld : ∀ o inst, w.resumed c.query.token o inst =
        ⟨{ w.traffic with inst, owed := w.traffic.owed ++ [c.query.token], failure := failed o },
          after w.reader o, w.born⟩ := by
      intro o inst
      unfold resumed
      rw [hreader]
    rw [hworld]
    refine ⟨rfl, ?_, balanced_resume hbalanced hsending hcached hc hstore ?_ _⟩
    · refine h.frame hbalanced ?_ h.heard h.answers ?_
      · intro t'
        exact ⟨rfl, rfl, fun _ _ _ _ hstate => hstate, ⟨[], (List.append_nil _).symm, .inl nofun⟩, rfl,
          ⟨[], (List.append_nil _).symm⟩, fun _ _ _ _ hopening _ => by cases hreader.symm.trans hopening⟩
      · unfold ReaderTold
        simpa [after] using hborn
    · rw [hreader]
      exact rfl
  | opening id q future res =>
    rw [hreader] at htold hrest
    obtain rfl : q.token = t := by
      rw [hreader] at hsending
      exact Option.some.inj hsending
    obtain ⟨hborn, hc, hlen, hcached, hcall, hqueries, hheard, hbatch, htoken⟩ := htold
    have hstore := Cursor.store_batch hbatch (unfilled w.traffic.inst q)
    have hmem : res.token ∈ w.traffic.inst.cursorCache := by
      rw [htoken, ← AList.lookup_isSome, hcached]
      rfl
    have hopened : (unfilled w.traffic.inst q).stored res =
        .opened q (w.traffic.inst.getJsonDecoder q) res := (Cursor.opened_batch hbatch q _).symm
    have hlive : ((unfilled w.traffic.inst q).stored res).outstandingRequests ≠ 0 := Int.one_ne_zero
    change openRest id q future res w.traffic.inst = _ at hrest
    rw [openRest_of hc hmem hstore, if_neg (fun hdone => hlive hdone.1)] at hrest
    obtain ⟨rfl, rfl⟩ := Prod.mk.inj hrest
    have hlt : id < w.traffic.inst.cursors.length := by omega
    have hworld : ∀ (o : Outcome (Exn V) (Reader V)) (inst : Instance V), w.resumed q.token o inst =
        ⟨{ w.traffic with inst, owed := w.traffic.owed ++ [q.token], failure := failed o },
          after w.reader o, w.born ++ inst.cursors[id]?.toList⟩ := by
      intro o inst
      unfold resumed
      rw [hreader]
    rw [hworld]
    refine ⟨rfl, ?_, balanced_resume hbalanced hsending hcached hc hstore ?_ _⟩
    · have hgrown : (w.traffic.inst.cursors.set id ((unfilled w.traffic.inst q).stored res))[id]? =
          some (.opened q (w.traffic.inst.getJsonDecoder q) res) := by
        rw [← hopened]
        simp [hlt]
      have hreported := h.reported hcall
      refine h.update hbalanced q.token ?_ rfl ?_ h.heard h.answers ?_
      · intro t' ht
        refine ⟨rfl, AList.lookup_erase_ne ht, ?_, ⟨[], (List.append_nil _).symm, .inl nofun⟩, rfl,
          ⟨_, rfl⟩, ?_⟩
        · intro q' future' hcall' state' hstate'
          have hne : future ≠ future' := by
            rintro rfl
            exact ht (h.apart _ _ _ _ _ hcall' hcall)
          exact (List.getElem?_set_ne hne).trans hstate'
        · intro id' q' future' res' hopening hcall'
          cases hreader.symm.trans hopening
          exact absurd (h.apart _ _ _ _ _ hcall' hcall) ht
      · intro caller hcaller
        obtain rfl : ⟨q, .waiting future⟩ = caller := Option.some.inj (hcall.symm.trans hcaller)
        refine .inr ⟨future, rfl, ?_, ?_⟩
        · cases hreported with
          | waits _ hfind _ => exact absurd hfind hheard
          | settled hnone _ _ => cases hqueries.symm.trans hnone
          | @opening id' payload m hopening hfind hdecode hfuture =>
            cases hreader.symm.trans hopening
            have hset : (w.traffic.inst.futures.set future
                (.result (maybeProfile (.cursor id) { m with token := q.token })))[future]? =
                some (.result (maybeProfile (.cursor id) { m with token := q.token })) := by
              simp [(List.getElem?_eq_some_iff.mp hfuture).1]
            refine .settled (AList.lookup_erase _ _) hset ⟨payload, m, id, hfind, hdecode, ?_, ?_⟩
            · unfold Instance.verdict
              rcases hbatch with htype | htype <;> rw [htype]
            · intro _
              rw [hgrown, ← hborn]
              exact List.getElem?_concat_length
        · intro t' q' ht hcall'
          exact ht (h.apart _ _ _ _ _ hcall' hcall)
      · unfold ReaderTold
        simp only [after, hgrown, Option.toList_some, List.length_append, List.length_singleton,
          List.length_set]
        omega
    · rw [hreader]
      exact rfl

/-! ### Runs -/

theorem Fresh.told (h : w.Fresh) : w.Told where
  calls := by
    intro t caller hcaller
    rw [h.traffic.calls, AList.lookup_empty] at hcaller
    cases hcaller
  apart := by
    intro t t' q q' future hcall
    rw [h.traffic.calls, AList.lookup_empty] at hcall
    cases hcall
  heard := by simp [h.traffic.heard]
  answers := by simp [h.traffic.incoming]
  reader := by
    unfold ReaderTold
    rw [h.reader]
    simp [h.born, h.traffic.cursors]

theorem Fresh.balanced (h : w.Fresh) : w.books.Balanced := by
  rw [books_receiving h.reader]
  exact h.traffic.balanced

/-- A step of another greenlet or of the server. -/
theorem Told.task {i : TrafficStep V} {T : Traffic V} (h : w.Told) (hbalanced : w.books.Balanced)
    (hallows : w.Allows i) (hstep : Traffic.Step .trio Sound w.traffic i T) :
    Told { w with traffic := T } := by
  have hopen : w.traffic.inst.isOpen = true := by simpa [books] using hbalanced.isOpen
  cases hstep with
  | call _ htoken => exact h.call hbalanced htoken
  | silent _ => exact h.moved hbalanced rfl rfl rfl h.answers
  | handOver _ _ => exact hallows.elim
  | resume _ _ => exact hallows.elim
  | cancel _ _ _ _ => exact hallows.elim
  | @fetch id inst _ hlt hfetch =>
    have hc : w.traffic.inst.cursors[id]? = some w.traffic.inst.cursors[id] := List.getElem?_eq_getElem hlt
    rw [Instance.maybeFetchBatch_of hopen hc] at hfetch
    obtain rfl := (Prod.mk.inj hfetch).2
    have hfetched : w.traffic.inst.cursors[id].fetch.query = w.traffic.inst.cursors[id].query ∧
        w.traffic.inst.cursors[id].fetch.jsonDecoder = w.traffic.inst.cursors[id].jsonDecoder := by
      unfold Cursor.fetch
      split <;> exact ⟨rfl, rfl⟩
    exact h.cursor hbalanced hc hfetched.1 hfetched.2 hallows _
  | @next id c v vs _ hc _ =>
    have hitems : ({ c with items := vs } : Cursor V).query = c.query := rfl
    exact h.cursor hbalanced hc hitems rfl hallows _
  | @closeCursor id inst _ hlt hclose =>
    have hc : w.traffic.inst.cursors[id]? = some w.traffic.inst.cursors[id] := List.getElem?_eq_getElem hlt
    by_cases herr : w.traffic.inst.cursors[id].error = none
    · rw [Instance.closeCursor_of hopen hc herr] at hclose
      obtain rfl := (Prod.mk.inj hclose).2
      have hstop : (w.traffic.inst.cursors[id].fail .cursorEmpty).request.query =
        w.traffic.inst.cursors[id].query := rfl
      exact h.cursor hbalanced hc hstop rfl hallows _
    · rw [Instance.closeCursor_done hc herr] at hclose
      obtain rfl := (Prod.mk.inj hclose).2
      exact h
  | sendRequest _ _ => exact h.moved hbalanced rfl rfl rfl h.answers
  | answer _ _ hcaller hsound =>
    refine h.moved hbalanced rfl rfl rfl ?_
    intro t payload caller hin hcaller'
    rcases List.mem_append.mp hin with hold | hnew
    · exact h.answers t payload caller hold hcaller'
    · obtain ⟨rfl, rfl⟩ := Prod.mk.inj (List.mem_singleton.mp hnew)
      obtain rfl := Option.some.inj (hcaller.symm.trans hcaller')
      exact hsound
  | read _ _ _ => exact hallows.elim

/-- What every step keeps. -/
theorem told_step {i : WorldStep V} (h : w.traffic.failure = none ∧ w.Told ∧ w.books.Balanced)
    (hreadable : w.Readable i) (hstep : Step Sound w i w') :
    w'.traffic.failure = none ∧ w'.Told ∧ w'.books.Balanced := by
  obtain ⟨hnone, htold, hbalanced⟩ := h
  have hopen : w.traffic.inst.isOpen = true := by simpa [books] using hbalanced.isOpen
  cases hstep with
  | @task i T hallows htask =>
    have hread : i ≠ .read := by
      rintro rfl
      exact hallows
    have hkept : T.failure = none := by
      cases htask with
      | read _ _ _ => exact absurd rfl hread
      | _ => exact hnone
    exact ⟨hkept, htold.task hbalanced hallows htask,
      hbalanced.step (step_books hopen hallows htask) hread⟩
  | send _ hcall =>
    exact ⟨hnone, htold.send hbalanced hcall, balanced_send hbalanced htold.isApart hcall⟩
  | read _ hreader hin hframe =>
    obtain ⟨r, rfl, hnext, hbooks⟩ := htold.read hbalanced hreader hin hreadable hframe
    exact ⟨rfl, hnext, hbooks⟩
  | resume _ hsending hrest =>
    obtain ⟨rfl, hnext, hbooks⟩ := htold.resume hbalanced hsending hrest
    exact ⟨rfl, hnext, hbooks⟩

/-- As long as the reader can read what it takes, every query of the gevent driver ends as the blocking
driver ends it. -/
theorem agrees_of_readable (h : (machine Sound).ReachedBy Readable w) : w.Agrees := by
  have hkept : w.traffic.failure = none ∧ w.Told ∧ w.books.Balanced := by
    apply h.invariant
    · exact fun _ hfresh => ⟨hfresh.traffic.failure, hfresh.told, hfresh.balanced⟩
    · exact fun _ _ _ _ hkept hreadable hstep => told_step hkept hreadable hstep
  obtain ⟨hnone, htold, hbalanced⟩ := hkept
  exact htold.agrees hbalanced hnone

/-- A blocking driver that sends the query and gets the same frame comes to what the future says. -/
theorem Agrees.runQuery (h : w.Agrees) {q : Query V} {future : ℕ} {state : FutureState V}
    (hcall : w.traffic.calls.lookup t = some ⟨q, .waiting future⟩) (htoken : 0 ≤ t ∧ t < 2 ^ 63)
    (hstate : w.traffic.inst.futures[future]? = some state) (hdone : state ≠ .pending) :
    ∃ payload, w.traffic.heard.find? (·.1 = t) = some (t, payload) ∧
      ∀ (P : Peer V) (d d₀ d₁ : Net.Driver P), Driver.sendQuery q d = (.ok (), d₀) →
        Driver.readFrame none d₀ = (.ok (q.token, payload), d₁) →
        d₁.cursorCache.lookup q.token = none → d₁.Up →
        d₁.jsonDecoder = w.traffic.inst.jsonDecoder →
        wp (Driver.runQuery q false) (fun o d' => SameOutcome w.born d'.cursors state o) d := by
  rcases h.same t q future hcall htoken.1 htoken.2 with ⟨hpending, -⟩ | ⟨payload, state', hheard, hstate', hsame⟩
  · rw [hstate] at hpending
    exact absurd (Option.some.inj hpending) hdone
  · obtain rfl : state = state' := Option.some.inj (hstate.symm.trans hstate')
    refine ⟨payload, hheard, ?_⟩
    intro P d d₀ d₁ hsend hframe hcache hup hdecoder
    rw [Driver.wp_runQuery_answerTo hsend hframe hcache]
    exact hsame P _ ⟨hup.isOpen, hup.closing, hup.sends⟩ hdecoder

/-- A new connection, on which every payload decodes to this message. -/
def fresh (m : Message ℕ) : World ℕ where
  traffic :=
    { inst := ⟨⟨fun _ => [], nil_length_lt, []⟩, fun _ => .ok m, true, false, ∅, ∅, [], [], []⟩
      nextToken := 0, calls := ∅, owed := [], incoming := [], heard := [], cancelled := []
      failure := none }
  reader := .receiving
  born := []

theorem fresh_fresh (m : Message ℕ) : (fresh m).Fresh := by
  constructor
  · constructor <;> exact rfl
  · exact rfl
  · exact rfl

def asked (m : Message ℕ) (type : QueryType) : World ℕ :=
  { fresh m with traffic := (fresh m).traffic.call .trio ⟨type, 0, none, .ok [], none, false⟩ }

def sent (m : Message ℕ) (type : QueryType) : World ℕ :=
  let w := asked m type
  { w with traffic := { w.traffic with
    inst := w.traffic.inst.register ⟨type, 0, none, .ok [], none, false⟩
    calls := w.traffic.calls.insert 0 ⟨⟨type, 0, none, .ok [], none, false⟩, .waiting 0⟩
    owed := w.traffic.owed ++ [0] } }

def answered (m : Message ℕ) (type : QueryType) : World ℕ :=
  { sent m type with traffic := { (sent m type).traffic with owed := [], incoming := [(0, [])] } }

theorem answered_reached {m : Message ℕ} (type : QueryType) (hsound : Sound (.ok m)) :
    (machine Sound).ReachedBy Readable (answered m type) := by
  have hcall : Step Sound (fresh m) (.task (.call ⟨type, 0, none, .ok [], none, false⟩)) (asked m type) :=
    .task trivial (.call rfl rfl)
  have hsend : Step Sound (asked m type) (.send 0) (sent m type) :=
    .send rfl (AList.lookup_insert _)
  have hanswer : Step Sound (sent m type) (.task (.answer 0 [])) (answered m type) := by
    have howed : (sent m type).traffic.owed = [] ++ 0 :: [] := rfl
    exact .task trivial (.answer rfl howed (AList.lookup_insert _) hsound)
  have hcalls : (fresh m).Readable (.task (.call ⟨type, 0, none, .ok [], none, false⟩)) := trivial
  have hsends : (asked m type).Readable (.send 0) := trivial
  have hanswers : (sent m type).Readable (.task (.answer 0 [])) := trivial
  exact .step (.step (.step (.init (fresh_fresh m)) hcalls hcall) hsends hsend) hanswers hanswer

def turned (m : Message ℕ) (type : QueryType) : World ℕ :=
  let turn := handleFrame 0 [] (answered m type).traffic.inst
  { answered m type with
    traffic := (answered m type).traffic.taken 0 [] [] turn.2 (failed turn.1)
    reader := after .receiving turn.1 }

theorem turned_step (m : Message ℕ) (type : QueryType) :
    Step Sound (answered m type) .read (turned m type) := .read rfl rfl rfl rfl

/-- The first batch of a cursor, while whose `CONTINUE` is sent the reader waits. -/
theorem agrees_of_readable_batch :
    (turned ⟨.successPartial, [5], none, some 9, none⟩ .start).Agrees := by
  apply agrees_of_readable
  refine .step (answered_reached .start ?_) ?_ (turned_step _ _)
  · intro m hm
    cases hm
    exact ⟨by simp [Message.Explained], by simp⟩
  · intro t payload rest q phase hin hcall
    have hlookup : (answered ⟨.successPartial, [5], none, some 9, none⟩ .start).traffic.calls.lookup 0 =
        some ⟨⟨.start, 0, none, .ok [], none, false⟩, .waiting 0⟩ := AList.lookup_insert _
    obtain ⟨rfl, rfl⟩ := Prod.mk.inj (List.cons.inj hin).1
    cases hlookup.symm.trans hcall
    exact ⟨⟨.successPartial, [5], none, some 9, none⟩, rfl, by simp⟩

/-- `server()` on a gevent connection: the blocking driver returns what this one raises an error for. -/
theorem serverInfo_disagrees :
    ∃ w : World ℕ, (machine Sound).Reachable w ∧ ¬w.Agrees := by
  let m : Message ℕ := ⟨.serverInfo, [7], none, none, none⟩
  have hsound : Sound (.ok m) := by
    intro m' hm
    cases hm
    exact ⟨by simp [m, Message.Explained], by simp [m]⟩
  have hreached : (machine Sound).Reachable (answered m .serverInfo) :=
    (answered_reached .serverInfo hsound).mono fun _ _ _ => trivial
  refine ⟨turned m .serverInfo, .step hreached trivial (turned_step m .serverInfo), ?_⟩
  intro hagrees
  have hcall : (turned m .serverInfo).traffic.calls.lookup 0 =
      some ⟨⟨.serverInfo, 0, none, .ok [], none, false⟩, .waiting 0⟩ := AList.lookup_insert _
  have hfuture : (turned m .serverInfo).traffic.inst.futures[0]? =
      some (.exception (.unknownResponseType .serverInfo)) := by decide +kernel
  rcases hagrees.same 0 _ 0 hcall (le_refl _) (by norm_num) with
    ⟨hpending, -⟩ | ⟨payload, state, -, hstate, hsame⟩
  · cases hfuture.symm.trans hpending
  · cases hfuture.symm.trans hstate
    have hup : ({ Driver.connected (fun _ => True) [] with jsonDecoder := fun _ => .ok m } :
        Net.Driver (conformingServer Driver.byteDecoder fun _ => True)).Up :=
      ⟨rfl, rfl, by simp [Driver.connected]⟩
    exact hsame _ _ hup rfl

end World
end RethinkDB.Gevent
