import RethinkDB.Async.Traffic
import RethinkDB.Net.Accounting

/-! What the cursors of the asyncio, the Trio and the Tornado driver give out: the batches that came
under their tokens, in order, and how many requests they have under way for more. -/
namespace RethinkDB.Net
open RethinkDB.Lib

variable {V : Type}

/-- A response brings a cursor without an error its batch, and no cursor anything else. -/
theorem Cursor.store_items {c c' : Cursor V} {m : Message V} {token : ℤ} {decoder : Decoder V}
    {buf : Bytes}
    (hdecode : decoder buf = .ok m) (hstore : c.store { m with token } = .ok c') :
    (c.error = none → c'.items = c.items ++ batchOf decoder buf) ∧
      (c.error ≠ none → c'.items = c.items) := by
  unfold store at hstore
  unfold batchOf
  cases herr : c.error with
  | some e =>
    simp only [herr] at hstore
    cases hstore
    simp
  | none =>
    simp only [herr] at hstore
    simp only [hdecode]
    refine ⟨fun _ => ?_, fun hne => absurd rfl hne⟩
    cases htype : m.type with
    | successPartial | successSequence =>
      simp only [htype] at hstore
      cases hstore
      simp
    | _ =>
      simp only [htype] at hstore
      cases hmake : Response.makeError { m with token } c.query with
      | error e =>
        rw [hmake] at hstore
        cases hstore
      | ok e =>
        rw [hmake] at hstore
        cases hstore
        simp [fail]

/-- How many requests a cursor may have under way: one for more, and one to stop. -/
def Cursor.allowance (error : Option (Exn V)) : ℤ := if error.isNone then 1 else 2

@[simp] theorem Cursor.allowance_none : allowance (none : Option (Exn V)) = 1 := rfl

@[simp] theorem Cursor.allowance_some (e : Exn V) : allowance (some e) = 2 := rfl

theorem Cursor.fetch_shape (c : Cursor V) : ∃ outstandingRequests,
    c.fetch = { c with outstandingRequests } ∧
    (c.outstandingRequests ≤ allowance c.error → outstandingRequests ≤ allowance c.error) := by
  unfold fetch
  by_cases hwants : c.WantsBatch
  · rw [if_pos hwants]
    refine ⟨_, rfl, fun _ => ?_⟩
    rw [hwants.1, hwants.2.2]
    simp
  · rw [if_neg hwants]
    exact ⟨_, rfl, fun hle => hle⟩

/-- One more frame. -/
theorem batches_concat (decoder : Decoder V) (fs : List (ℤ × Bytes)) (f : ℤ × Bytes) (token : ℤ) :
    batches decoder (fs ++ [f]) token =
      batches decoder fs token ++ if f.1 = token then batchOf decoder f.2 else [] := by
  unfold batches
  rw [List.filter_append, List.flatMap_append]
  by_cases htoken : f.1 = token
  · simp [htoken]
  · simp [htoken]

theorem batches_nil {decoder : Decoder V} {fs : List (ℤ × Bytes)} {token : ℤ}
    (h : ∀ f ∈ fs, f.1 ≠ token) : batches decoder fs token = [] := by
  have hnone : fs.filter (·.1 = token) = [] := by
    rw [List.filter_eq_nil_iff]
    intro f hf
    simp [h f hf]
  rw [batches, hnone]
  exact rfl

end RethinkDB.Net

namespace RethinkDB.Async
open RethinkDB.Lib Net Prog

variable {V : Type}

/-- Traffic, and all that `next` has given out, each value with its cursor. -/
structure Ledger (V : Type) where
  traffic : Traffic V
  returned : List (ℕ × V)

namespace Ledger

def given (T : Traffic V) : TrafficStep V → List (ℕ × V)
  | .next id => (((T.inst.cursors[id]?).bind fun c => c.items.head?).map fun v => (id, v)).toList
  | _ => []

def machine (driver : Driver) (conforms : Except String (Message V) → Prop) :
    Machine (Ledger V) (TrafficStep V) where
  init L := L.traffic.Fresh ∧ L.returned = []
  step L i L' := Traffic.Step driver conforms L.traffic i L'.traffic ∧
    L'.returned = L.returned ++ given L.traffic i

def returnedBy (L : Ledger V) (id : ℕ) : List V := (L.returned.filter (·.1 = id)).map Prod.snd

theorem traffic_reachable {driver : Driver} {conforms : Except String (Message V) →
    Prop} {L : Ledger V}
    (h : (machine driver conforms).Reachable L) :
    (Traffic.machine driver conforms).Reachable L.traffic := by
  induction h with
  | init hs => exact .init hs.1
  | step _ _ hstep ih => exact .step ih trivial hstep.1

/-! ### What is kept -/

structure Account (L : Ledger V) (id : ℕ) (c : Cursor V) : Prop where
  heard : ∃ f ∈ L.traffic.heard, f.1 = c.query.token
  items : L.returnedBy id ++ c.items <+: batches c.jsonDecoder L.traffic.heard c.query.token
  items_eq : c.error = none →
    L.returnedBy id ++ c.items = batches c.jsonDecoder L.traffic.heard c.query.token
  outstanding : c.outstandingRequests ≤ Cursor.allowance c.error

structure Kept (L : Ledger V) : Prop where
  account : ∀ (id : ℕ) (c : Cursor V), L.traffic.inst.cursors[id]? = some c → L.Account id c
  apart : ∀ (id id' : ℕ) (c c' : Cursor V), L.traffic.inst.cursors[id]? = some c →
    L.traffic.inst.cursors[id']? = some c' → c.query.token = c'.query.token → id = id'
  answered : ∀ f ∈ L.traffic.heard, L.traffic.inst.userQueries.lookup f.1 = none ∧
    ∃ q future, L.traffic.calls.lookup f.1 = some ⟨q, .waiting future⟩
  returned : ∀ r ∈ L.returned, r.1 < L.traffic.inst.cursors.length

variable {L L' : Ledger V} {t : ℤ}

theorem returnedBy_append {more : List (ℕ × V)} (hreturned : L'.returned = L.returned ++ more)
    (id : ℕ) :
    L'.returnedBy id = L.returnedBy id ++ (more.filter (·.1 = id)).map Prod.snd := by
  simp [returnedBy, hreturned]

theorem returnedBy_eq (hreturned : L'.returned = L.returned) (id : ℕ) :
    L'.returnedBy id = L.returnedBy id := by
  rw [returnedBy, hreturned, returnedBy]

/-- Between two frames: no cursor comes, none changes hands, and what one loses it gives out. -/
theorem Kept.frame (h : L.Kept) (hheard : L'.traffic.heard = L.traffic.heard)
    (hlength : L'.traffic.inst.cursors.length = L.traffic.inst.cursors.length)
    (hcursors : ∀ (id : ℕ) (c' : Cursor V), L'.traffic.inst.cursors[id]? = some c' →
      ∃ c, L.traffic.inst.cursors[id]? = some c ∧ c'.query = c.query ∧
      c'.jsonDecoder = c.jsonDecoder ∧
        L'.returnedBy id ++ c'.items = L.returnedBy id ++ c.items ∧
        (c'.error = none → c.error = none) ∧
        (c.outstandingRequests ≤ Cursor.allowance c.error →
          c'.outstandingRequests ≤ Cursor.allowance c'.error))
    (hanswered : ∀ t, L.traffic.inst.userQueries.lookup t = none →
      (∃ q future, L.traffic.calls.lookup t = some ⟨q, .waiting future⟩) →
      L'.traffic.inst.userQueries.lookup t = none ∧
        ∃ q future, L'.traffic.calls.lookup t = some ⟨q, .waiting future⟩)
    (hreturned : ∀ r ∈ L'.returned, r ∈ L.returned ∨
      r.1 < L.traffic.inst.cursors.length) : L'.Kept where
  account := by
    intro id c' hc'
    obtain ⟨c, hc, hquery, hdecoder, hitems, herror, houtstanding⟩ := hcursors id c' hc'
    have haccount := h.account id c hc
    constructor
    · rw [hheard, hquery]
      exact haccount.heard
    · rw [hheard, hquery, hdecoder, hitems]
      exact haccount.items
    · intro hnone
      rw [hheard, hquery, hdecoder, hitems]
      exact haccount.items_eq (herror hnone)
    · exact houtstanding haccount.outstanding
  apart := by
    intro id id' c c' hc hc' htoken
    obtain ⟨d, hd, hquery, -⟩ := hcursors id c hc
    obtain ⟨d', hd', hquery', -⟩ := hcursors id' c' hc'
    rw [hquery, hquery'] at htoken
    exact h.apart id id' d d' hd hd' htoken
  answered := by
    intro f hf
    rw [hheard] at hf
    obtain ⟨hqueries, hcall⟩ := h.answered f hf
    exact hanswered f.1 hqueries hcall
  returned := by
    intro r hr
    rw [hlength]
    rcases hreturned r hr with hold | hnew
    · exact h.returned r hold
    · exact hnew

/-- A step that leaves the cursors and what they have given out alone. -/
theorem Kept.moved (h : L.Kept) (hheard : L'.traffic.heard = L.traffic.heard)
    (hcursors : L'.traffic.inst.cursors = L.traffic.inst.cursors)
    (hreturned : L'.returned = L.returned)
    (hanswered : ∀ t, L.traffic.inst.userQueries.lookup t = none →
      (∃ q future, L.traffic.calls.lookup t = some ⟨q, .waiting future⟩) →
      L'.traffic.inst.userQueries.lookup t = none ∧
        ∃ q future, L'.traffic.calls.lookup t = some ⟨q, .waiting future⟩) : L'.Kept := by
  apply h.frame hheard (by rw [hcursors]) ?_ hanswered
  · intro r hr
    rw [hreturned] at hr
    exact .inl hr
  · intro id c hc
    rw [hcursors] at hc
    exact ⟨c, hc, rfl, rfl, by rw [returnedBy_eq hreturned], fun hnone => hnone, fun hle => hle⟩

/-- A step on one cursor that gives nothing out. -/
theorem Kept.cursor (h : L.Kept) {id : ℕ} {c c' : Cursor V}
    (hc : L.traffic.inst.cursors[id]? = some c)
    (hheard : L'.traffic.heard = L.traffic.heard) (hreturned : L'.returned = L.returned)
    (hcursors : L'.traffic.inst.cursors = L.traffic.inst.cursors.set id c')
    (hqueries : L'.traffic.inst.userQueries = L.traffic.inst.userQueries)
    (hcalls : L'.traffic.calls = L.traffic.calls)
    (hshape : ∃ outstandingRequests error, c' = { c with outstandingRequests, error } ∧
      (error = none → c.error = none) ∧
      (c.outstandingRequests ≤ Cursor.allowance c.error →
        outstandingRequests ≤ Cursor.allowance error)) : L'.Kept := by
  obtain ⟨outstandingRequests, error, rfl, herror, houtstanding⟩ := hshape
  apply h.frame hheard (by rw [hcursors, List.length_set])
  · intro id' d' hd'
    rw [hcursors, List.getElem?_set] at hd'
    split_ifs at hd' with hid hlt
    · subst hid
      cases hd'
      exact ⟨c, hc, rfl, rfl, by rw [returnedBy_eq hreturned], herror, houtstanding⟩
    · exact ⟨d', hd', rfl, rfl, by rw [returnedBy_eq hreturned], fun hnone => hnone, fun hle => hle⟩
  · intro t hnone hcall
    rw [hqueries, hcalls]
    exact ⟨hnone, hcall⟩
  · intro r hr
    rw [hreturned] at hr
    exact .inl hr

theorem Kept.step {driver : Driver} {conforms : Except String (Message V) →
    Prop} {i : TrafficStep V}
    (h : L.Kept) (hbalanced : L.traffic.Balanced)
    (hstep : Traffic.Step driver conforms L.traffic i L'.traffic)
    (hreturned : L'.returned = L.returned ++ given L.traffic i) (hread : i ≠ .read) : L'.Kept := by
  obtain ⟨T', returned⟩ := L'
  dsimp only at hstep hreturned
  -- a token that has been heard of is neither new nor on its way
  have hinsert : ∀ (t t' : ℤ) (caller : Caller V),
    (∀ q future, L.traffic.calls.lookup t ≠ some ⟨q, .waiting future⟩) →
      (∃ q future, L.traffic.calls.lookup t' = some ⟨q, .waiting future⟩) →
      t' ≠ t ∧ ∃ q future,
        (L.traffic.calls.insert t caller).lookup t' = some ⟨q, .waiting future⟩ := by
    rintro t t' caller hfree ⟨q, future, hcall⟩
    have hne : t' ≠ t := by
      rintro rfl
      exact hfree q future hcall
    exact ⟨hne, q, future, by rw [AList.lookup_insert_ne hne, hcall]⟩
  cases hstep with
  | @call query _ htoken =>
    have hnew : ∀ q future, L.traffic.calls.lookup query.token ≠ some ⟨q, .waiting future⟩ := by
      intro q future hcall
      have hlt := hbalanced.tokens query.token (by simp [hcall])
      omega
    have hnone : returned = L.returned := by simpa [given] using hreturned
    cases driver <;> refine h.moved rfl rfl hnone fun t hqueries hcall => ?_
    · obtain ⟨hne, hcall'⟩ := hinsert query.token t _ hnew hcall
      refine ⟨?_, hcall'⟩
      rw [← hqueries]
      exact AList.lookup_insert_ne hne
    · exact ⟨hqueries, (hinsert query.token t _ hnew hcall).2⟩
    · exact ⟨hqueries, (hinsert query.token t _ hnew hcall).2⟩
  | silent => exact h.moved rfl rfl (by simpa [given] using hreturned) fun t hqueries hcall =>
    ⟨hqueries, hcall⟩
  | @handOver token query _ hsending =>
    refine h.moved rfl rfl (by simpa [given] using hreturned) fun t hqueries hcall => ⟨hqueries, ?_⟩
    exact (hinsert token t _ (by simp [hsending]) hcall).2
  | @resume token query _ hhanded =>
    have htoken : query.token = token := by
      have hstation := hbalanced.station token
      unfold Traffic.Station at hstation
      rw [hhanded] at hstation
      exact hstation.1
    refine h.moved rfl rfl (by simpa [given] using hreturned) fun t hqueries hcall => ?_
    obtain ⟨hne, hcall'⟩ := hinsert token t _ (by simp [hhanded]) hcall
    refine ⟨?_, hcall'⟩
    rw [← hqueries]
    rw [← htoken] at hne
    exact AList.lookup_insert_ne hne
  | cancel => exact h.moved rfl rfl (by simpa [given] using hreturned) fun t hqueries hcall =>
    ⟨hqueries, hcall⟩
  | @fetch id inst _ hlt hfetch =>
    have hc : L.traffic.inst.cursors[id]? = some L.traffic.inst.cursors[id] :=
      List.getElem?_eq_getElem hlt
    rw [Instance.maybeFetchBatch_of hbalanced.isOpen hc] at hfetch
    obtain rfl := (Prod.mk.inj hfetch).2
    refine h.cursor hc rfl (by simpa [given] using hreturned) rfl rfl rfl ?_
    obtain ⟨outstandingRequests, hfetch, hle⟩ := L.traffic.inst.cursors[id].fetch_shape
    exact ⟨outstandingRequests, _, hfetch, fun hnone => hnone, hle⟩
  | @next id c v vs _ hc hitems =>
    have hgiven : returned = L.returned ++ [(id, v)] := by simpa [given, hc, hitems] using hreturned
    have hlt : id < L.traffic.inst.cursors.length := (List.getElem?_eq_some_iff.mp hc).1
    refine h.frame rfl List.length_set ?_ (fun t hqueries hcall => ⟨hqueries, hcall⟩) ?_
    · intro id' c' hc'
      dsimp only at hc'
      rw [List.getElem?_set] at hc'
      rw [returnedBy_append hgiven]
      split_ifs at hc' with hid
      · subst hid
        cases hc'
        exact ⟨c, hc, rfl, rfl, by simp [hitems], fun hnone => hnone, fun hle => hle⟩
      · exact ⟨c', hc', rfl, rfl, by simp [hid], fun hnone => hnone, fun hle => hle⟩
    · intro r hr
      dsimp only at hr
      rw [hgiven, List.mem_append, List.mem_singleton] at hr
      rcases hr with hold | rfl
      · exact .inl hold
      · exact .inr hlt
  | @closeCursor id inst _ hlt hclose =>
    have hc : L.traffic.inst.cursors[id]? = some L.traffic.inst.cursors[id] :=
      List.getElem?_eq_getElem hlt
    have hnone : returned = L.returned := by simpa [given] using hreturned
    by_cases herr : L.traffic.inst.cursors[id].error = none
    · rw [Instance.closeCursor_of hbalanced.isOpen hc herr] at hclose
      obtain rfl := (Prod.mk.inj hclose).2
      refine h.cursor hc rfl hnone rfl rfl rfl ⟨_, _, rfl, by simp [Cursor.fail], ?_⟩
      intro hle
      rw [herr, Cursor.allowance_none] at hle
      simp only [Cursor.fail, Cursor.allowance_some]
      omega
    · rw [Instance.closeCursor_done hc herr] at hclose
      obtain rfl := (Prod.mk.inj hclose).2
      exact h.moved rfl rfl hnone fun t hqueries hcall => ⟨hqueries, hcall⟩
  | sendRequest =>
    exact h.moved rfl rfl (by simpa [given] using hreturned) fun t hqueries hcall =>
      ⟨hqueries, hcall⟩
  | answer =>
    exact h.moved rfl rfl (by simpa [given] using hreturned) fun t hqueries hcall =>
      ⟨hqueries, hcall⟩
  | read => exact absurd rfl hread

/-! ### The reader -/

variable {payload : Bytes} {rest : List (ℤ × Bytes)}

/-- Frames for others do not touch an account. -/
theorem Account.other {id : ℕ} {c : Cursor V} (h : L.Account id c) {f : ℤ × Bytes}
    (hheard : L'.traffic.heard = L.traffic.heard ++ [f]) (hother : f.1 ≠ c.query.token)
    (hreturned : L'.returned = L.returned) : L'.Account id c := by
  obtain ⟨g, hg, htoken⟩ := h.heard
  have hbatches : batches c.jsonDecoder L'.traffic.heard c.query.token =
      batches c.jsonDecoder L.traffic.heard c.query.token := by
    rw [hheard, batches_concat, if_neg hother, List.append_nil]
  constructor
  · exact ⟨g, by rw [hheard]; exact List.mem_append_left _ hg, htoken⟩
  · rw [hbatches, returnedBy_eq hreturned]
    exact h.items
  · rw [hbatches, returnedBy_eq hreturned]
    exact h.items_eq
  · exact h.outstanding

/-- The frame goes to a cursor. -/
theorem Account.extended {id : ℕ} {c c' : Cursor V} (h : L.Account id c) {m : Message V}
    (hheard : L'.traffic.heard = L.traffic.heard ++ [(c.query.token, payload)])
    (hreturned : L'.returned = L.returned) (hdecode : c.jsonDecoder payload = .ok m)
    (hstore : c.answered.fetch.store { m with token := c.query.token } =
      .ok c') : L'.Account id c' := by
  obtain ⟨outstandingRequests, hfetch, hle⟩ := c.answered.fetch_shape
  rw [hfetch] at hstore
  obtain ⟨hbrought, hleft⟩ := Cursor.store_items hdecode hstore
  have hfailed := Cursor.store_failed hstore
  obtain ⟨items, threshold, error, rfl⟩ := Cursor.store_shape hstore
  dsimp only [Cursor.answered] at *
  have hnone : error = none → c.error = none := by
    intro herr
    by_contra hne
    exact hne ((hfailed hne).symm.trans herr)
  have hbatches : batches c.jsonDecoder L'.traffic.heard c.query.token =
      batches c.jsonDecoder L.traffic.heard c.query.token ++ batchOf c.jsonDecoder payload := by
    rw [hheard, batches_concat, if_pos rfl]
  constructor
  · exact ⟨_, by rw [hheard]; exact List.mem_concat_self, rfl⟩
  · dsimp only
    rw [hbatches, returnedBy_eq hreturned]
    by_cases herr : c.error = none
    · rw [hbrought herr, ← List.append_assoc, h.items_eq herr]
    · rw [hleft herr]
      exact h.items.trans (List.prefix_append ..)
  · dsimp only
    intro herr
    rw [hbatches, returnedBy_eq hreturned, hbrought (hnone herr), ← List.append_assoc,
      h.items_eq (hnone herr)]
  · have hbound := h.outstanding
    have hcount := hle (by omega)
    dsimp only
    cases hc : c.error with
    | some e =>
      rw [hfailed (by simp [hc]), hc]
      rw [hc] at hcount
      exact hcount
    | none =>
      rw [hc] at hcount
      apply hcount.trans
      cases error <;> simp

/-- The frame is the first response to a query. -/
theorem Kept.settled (h : L.Kept) (q : Query V) (future : ℕ) {m : Message V} (state : FutureState V)
    (hcall : L.traffic.calls.lookup q.token = some ⟨q, .waiting future⟩)
    (hwaits : L.traffic.Waits q.token q future)
    (hdecode : L.traffic.inst.getJsonDecoder q payload = .ok m) :
    Kept ⟨L.traffic.taken q.token payload rest
      (L.traffic.inst.settled q future { m with token := q.token } state) none, L.returned⟩ := by
  -- nothing was heard under the token before
  have hnew : ∀ f ∈ L.traffic.heard, f.1 ≠ q.token := by
    intro f hf htoken
    have hnone := (h.answered f hf).1
    rw [htoken, hwaits.queries] at hnone
    cases hnone
  have hold : ∀ (id : ℕ) (c : Cursor V), L.traffic.inst.cursors[id]? = some c →
      c.query.token ≠ q.token := by
    intro id c hc htoken
    obtain ⟨f, hf, hfirst⟩ := (h.account id c hc).heard
    exact hnew f hf (hfirst.trans htoken)
  have hanswered : ∀ f ∈ L.traffic.heard ++ [(q.token, payload)],
      (L.traffic.inst.userQueries.erase q.token).lookup f.1 = none ∧
        ∃ q future, L.traffic.calls.lookup f.1 = some ⟨q, .waiting future⟩ := by
    intro f hf
    rw [List.mem_append, List.mem_singleton] at hf
    rcases hf with hf | rfl
    · rw [AList.lookup_erase_ne (hnew f hf)]
      exact h.answered f hf
    · exact ⟨AList.lookup_erase _ _, q, future, hcall⟩
  by_cases hbatch : Response.IsBatch { m with token := q.token }
  · rw [Instance.settled, Instance.arranged, if_pos hbatch]
    let first : Cursor V := .opened q (L.traffic.inst.getJsonDecoder q) { m with token := q.token }
    have hfirst : first = Cursor.stored { m with token := q.token }
        ⟨q, [], 1, 1, none, L.traffic.inst.getJsonDecoder q⟩ := Cursor.opened_batch hbatch q _
    have hcursors : ∀ (id : ℕ) (c : Cursor V), (L.traffic.inst.cursors ++ [first])[id]? = some c →
        L.traffic.inst.cursors[id]? = some c ∨ id = L.traffic.inst.cursors.length ∧ c = first := by
      intro id c hc
      rw [List.getElem?_append] at hc
      split_ifs at hc with hlt
      · exact .inl hc
      · obtain ⟨hid, hcursor⟩ := List.getElem?_eq_some_iff.mp hc
        rw [List.length_singleton] at hid
        exact .inr ⟨by omega, by simpa using hcursor.symm⟩
    constructor
    · intro id c hc
      rcases hcursors id c hc with hc | ⟨rfl, rfl⟩
      · exact (h.account id c hc).other rfl (hold id c hc).symm rfl
      · have hreturned : returnedBy ⟨L.traffic.taken q.token payload rest
            { L.traffic.inst.opened q { m with token := q.token } with
              futures := L.traffic.inst.futures.set future state
              userQueries := L.traffic.inst.userQueries.erase q.token } none, L.returned⟩
            L.traffic.inst.cursors.length = [] := by
          rw [returnedBy, List.map_eq_nil_iff, List.filter_eq_nil_iff]
          intro r hr
          have hlt := h.returned r hr
          simp
          omega
        have hitems : first.items = batches first.jsonDecoder
          (L.traffic.heard ++ [(q.token, payload)])
            first.query.token := by
          rw [hfirst]
          change [] ++ m.data = batches (L.traffic.inst.getJsonDecoder q) _ q.token
          rw [batches_concat, batches_nil hnew, if_pos rfl, batchOf, hdecode]
          exact congrArg _ (if_pos hbatch).symm
        constructor
        · exact ⟨(q.token, payload), List.mem_concat_self, by rw [hfirst]; rfl⟩
        · rw [hreturned]
          exact hitems ▸ List.prefix_rfl
        · intro _
          rw [hreturned]
          exact hitems
        · rw [hfirst]
          unfold Cursor.stored
          dsimp only
          split <;> simp
    · intro id id' c c' hc hc' htoken
      rcases hcursors id c hc with hc | ⟨rfl, rfl⟩ <;> rcases hcursors id' c' hc' with hc'
        | ⟨rfl, rfl⟩
      · exact h.apart id id' c c' hc hc' htoken
      · rw [hfirst] at htoken
        exact absurd htoken (hold id c hc)
      · rw [hfirst] at htoken
        exact absurd htoken.symm (hold id' c' hc')
      · exact rfl
    · exact hanswered
    · intro r hr
      have hlt := h.returned r hr
      change r.1 < (L.traffic.inst.cursors ++ [first]).length
      rw [List.length_append]
      omega
  · rw [Instance.settled, Instance.arranged, if_neg hbatch]
    constructor
    · intro id c hc
      exact (h.account id c hc).other rfl (hold id c hc).symm rfl
    · exact h.apart
    · exact hanswered
    · exact h.returned

/-- The frame is one more response to a cursor. -/
theorem Kept.extended (h : L.Kept) {q : Query V} {future id : ℕ} {c c' : Cursor V} {m : Message V}
    (hcall : L.traffic.calls.lookup c.query.token = some ⟨q, .waiting future⟩)
    (hstreams : L.traffic.Streams c.query.token q id c) (hdecode : c.jsonDecoder payload = .ok m)
    (hstore : c.answered.fetch.store { m with token := c.query.token } = .ok c') :
    Kept ⟨L.traffic.taken c.query.token payload rest (L.traffic.inst.extended id c c') none,
      L.returned⟩ := by
  have hc := hstreams.cursor
  have hquery : c'.query = c.query := by
    obtain ⟨outstandingRequests, hfetch, -⟩ := c.answered.fetch_shape
    rw [hfetch] at hstore
    obtain ⟨items, threshold, error, rfl⟩ := Cursor.store_shape hstore
    exact rfl
  have hcursors : ∀ (id' : ℕ) (d : Cursor V), (L.traffic.inst.cursors.set id c')[id']? = some d →
      id' = id ∧ d = c' ∨ id' ≠ id ∧ L.traffic.inst.cursors[id']? = some d := by
    intro id' d hd
    rw [List.getElem?_set] at hd
    split_ifs at hd with hid hlt
    · exact .inl ⟨hid.symm, (Option.some.inj hd).symm⟩
    · exact .inr ⟨Ne.symm hid, hd⟩
  constructor
  · intro id' d hd
    rcases hcursors id' d hd with ⟨rfl, rfl⟩ | ⟨hne, hd⟩
    · exact (h.account _ c hc).extended rfl rfl hdecode hstore
    · have hother : c.query.token ≠ d.query.token := by
        intro htoken
        exact hne (h.apart _ _ _ _ hc hd htoken).symm
      exact (h.account id' d hd).other rfl hother rfl
  · intro id₁ id₂ c₁ c₂ hc₁ hc₂ htoken
    rcases hcursors id₁ c₁ hc₁ with ⟨rfl, rfl⟩ | ⟨hne₁, hd₁⟩ <;>
      rcases hcursors id₂ c₂ hc₂ with ⟨rfl, rfl⟩ | ⟨hne₂, hd₂⟩
    · exact rfl
    · rw [hquery] at htoken
      exact h.apart _ _ _ _ hc hd₂ htoken
    · rw [hquery] at htoken
      exact h.apart _ _ _ _ hd₁ hc htoken
    · exact h.apart _ _ _ _ hd₁ hd₂ htoken
  · intro f hf
    simp only [Traffic.taken, List.mem_append, List.mem_singleton] at hf
    rcases hf with hf | rfl
    · exact h.answered f hf
    · exact ⟨hstreams.queries, q, future, hcall⟩
  · intro r hr
    have hlt := h.returned r hr
    change r.1 < (L.traffic.inst.cursors.set id c').length
    rw [List.length_set]
    exact hlt

/-- One turn of the reader that raises nothing. -/
theorem Kept.read {driver : Driver} (h : L.Kept) (hbalanced : L.traffic.Balanced)
    (hin : L.traffic.incoming = (t, payload) :: rest) {o : Outcome (Exn V) Unit} {inst : Instance V}
    (hframe : Instance.handleFrame driver t payload L.traffic.inst = (o, inst))
    (hnone : Traffic.failed o = none) :
    Kept ⟨L.traffic.taken t payload rest inst none, L.returned⟩ := by
  obtain ⟨q, phase, hcall, htoken, hstands⟩ := hbalanced.addressee hin
  rcases hstands with ⟨-, hquiet⟩ | ⟨future, rfl, hwaits | ⟨id, c, hstreams⟩⟩
  · rw [Instance.handleFrame_stray hquiet.cache hquiet.queries hbalanced.closing] at hframe
    obtain rfl := (Prod.mk.inj hframe).1
    cases hnone
  · subst htoken
    rcases Instance.handleFrame_query hbalanced.isOpen hwaits.cache hwaits.queries with
      ⟨m, state, hdecode, -, hok⟩ | herror
    · rw [hok] at hframe
      obtain rfl := (Prod.mk.inj hframe).2
      exact h.settled q future state hcall hwaits hdecode
    · rw [wp_of_eq hframe] at herror
      obtain ⟨e, rfl, -⟩ := herror
      cases hnone
  · have hcached := hstreams.cached htoken
    obtain rfl : c.query.token = t := by rw [hstreams.query, htoken]
    rw [Instance.handleFrame_cursor hstreams.cache] at hframe
    rcases Instance.extend_cases hbalanced.isOpen hstreams.cursor hcached with
      ⟨m, c', hdecode, hstore, hok⟩ | herror
    · rw [hok] at hframe
      obtain rfl := (Prod.mk.inj hframe).2
      exact h.extended hcall hstreams hdecode hstore
    · rw [wp_of_eq hframe] at herror
      obtain ⟨e, rfl, -⟩ := herror
      cases hnone

theorem kept_of_reachable {driver : Driver} {conforms : Except String (Message V) → Prop}
    (h : (machine driver conforms).Reachable L) : L.traffic.failure = none → L.Kept := by
  apply h.invariant
  · rintro L ⟨hfresh, hreturned⟩ _
    constructor
    · intro id c hc
      simp [hfresh.cursors] at hc
    · intro id id' c c' hc
      simp [hfresh.cursors] at hc
    · intro f hf
      simp [hfresh.heard] at hf
    · intro r hr
      simp [hreturned] at hr
  · intro L i L' hreached hkept _ hstep hnone
    obtain ⟨T', returned⟩ := L'
    obtain ⟨hmoves, hreturned⟩ := hstep
    dsimp only at hmoves hreturned hnone
    have hsteps : L.traffic.failure = none := by cases hmoves <;> assumption
    have hbalanced := Traffic.balanced_of_reachable (traffic_reachable hreached) hsteps
    by_cases hread : i = .read
    · subst hread
      obtain rfl : returned = L.returned := by simpa [given] using hreturned
      cases hmoves with
      | read _ hin hframe =>
        dsimp only at hnone
        rw [hnone]
        exact (hkept hsteps).read hbalanced hin hframe hnone
    · exact (hkept hsteps).step hbalanced hmoves hreturned hread

/-- Each cursor gives out and holds the batches that the reader has taken under its token, in their
order and each once: all of them while it has no error, and then nothing that came after it. No two
cursors share a token. -/
theorem returned_batches {driver : Driver} {conforms : Except String (Message V) → Prop}
    (h : (machine driver conforms).Reachable L)
    (hnone : L.traffic.failure = none) {id : ℕ} {c : Cursor V}
    (hc : L.traffic.inst.cursors[id]? = some c) :
    L.returnedBy id ++ c.items <+: batches c.jsonDecoder L.traffic.heard c.query.token ∧
      (c.error = none →
        L.returnedBy id ++ c.items = batches c.jsonDecoder L.traffic.heard c.query.token) ∧
      ∀ (id' : ℕ) (c' : Cursor V), L.traffic.inst.cursors[id']? = some c' →
        c'.query.token = c.query.token → id' = id := by
  have hkept := kept_of_reachable h hnone
  have haccount := hkept.account id c hc
  refine ⟨haccount.items, haccount.items_eq, ?_⟩
  intro id' c' hc' htoken
  exact hkept.apart id' id c' c hc' hc htoken

end Ledger

namespace Traffic

variable {T : Traffic V}

/-- Traffic can be watched. -/
theorem ledger_reachable {driver : Driver} {conforms : Except String (Message V) → Prop}
    (h : (machine driver conforms).Reachable T) :
    ∃ returned, (Ledger.machine driver conforms).Reachable ⟨T, returned⟩ := by
  induction h with
  | init hfresh => exact ⟨[], .init ⟨hfresh, rfl⟩⟩
  | step _ _ hstep ih =>
    obtain ⟨returned, hreached⟩ := ih
    exact ⟨_, .step hreached trivial ⟨hstep, rfl⟩⟩

/-- Of the requests under one token at most two are unanswered at a time, and two only when the
cursor that sent the second one, the `STOP`, has an error already. -/
theorem due_bounded {driver : Driver} {conforms : Except String (Message V) → Prop}
    (h : (machine driver conforms).Reachable T) (hnone : T.failure = none) (t : ℤ) :
    T.due t ≤ 1 ∨ T.due t = 2 ∧ ∃ id c e, T.inst.cursorCache.lookup t = some id ∧
      T.inst.cursors[id]? = some c ∧ c.query.token = t ∧ c.error = some e := by
  obtain ⟨returned, hledger⟩ := ledger_reachable h
  have hkept := Ledger.kept_of_reachable hledger hnone
  have hstation := (balanced_of_reachable h hnone).station t
  unfold Station at hstation
  cases hcall : T.calls.lookup t with
  | none =>
    rw [hcall] at hstation
    exact .inl (by rw [hstation.due]; exact Nat.zero_le 1)
  | some caller =>
    obtain ⟨q, phase⟩ := caller
    rw [hcall] at hstation
    obtain ⟨htoken, hstands⟩ := hstation
    cases phase with
    | sending => exact .inl (by rw [hstands.due]; exact Nat.zero_le 1)
    | handed => exact .inl hstands.due.le
    | waiting future =>
      rcases hstands with hwaits | ⟨id, c, hstreams⟩ | hquiet
      · exact .inl hwaits.due.le
      · have hbound := (hkept.account id c hstreams.cursor).outstanding
        rw [hstreams.outstanding] at hbound
        cases herr : c.error with
        | none =>
          rw [herr, Cursor.allowance_none] at hbound
          exact .inl (by omega)
        | some e =>
          rw [herr, Cursor.allowance_some] at hbound
          by_cases htwo : T.due t = 2
          · exact .inr ⟨htwo, id, c, e, hstreams.cache, hstreams.cursor,
              by rw [hstreams.query, htoken], herr⟩
          · exact .inl (by omega)
      · exact .inl (by rw [hquiet.due]; exact Nat.zero_le 1)

/-- A connection to a server that answers with a batch each time. -/
def batching : Traffic ℕ := { started with
  inst :=
    { started.inst with jsonDecoder := fun _ => .ok ⟨.successPartial, [7, 8], none, none, none⟩ } }

def arrived : Traffic ℕ :=
  { batching.call .asyncio lookupQuery with owed := [], incoming := [(1, [])] }

def streamed : Traffic ℕ :=
  arrived.taken 1 [] [] (Instance.handleFrame .asyncio 1 [] arrived.inst).2
    (failed (Instance.handleFrame .asyncio 1 [] arrived.inst).1)

def begun : Ledger ℕ where
  traffic := { streamed with
    inst :=
      { streamed.inst with cursors := streamed.inst.cursors.map fun c => { c with items := [8] } } }
  returned := [(0, 7)]

theorem begun_reached : (Ledger.machine .asyncio Conforming).Reachable begun := by
  have hfresh : batching.Fresh := by constructor <;> exact rfl
  have hcall : (Ledger.machine .asyncio Conforming).step ⟨batching, []⟩ (.call lookupQuery)
      ⟨batching.call .asyncio lookupQuery, []⟩ := ⟨.call rfl rfl, rfl⟩
  have hanswer : (Ledger.machine .asyncio Conforming).step ⟨batching.call .asyncio lookupQuery, []⟩
      (.answer 1 []) ⟨arrived, []⟩ := by
    have howed : (batching.call .asyncio lookupQuery).owed = [] ++ 1 :: [] := rfl
    have hconforming : Conforming ((batching.call .asyncio lookupQuery).inst.getJsonDecoder
      lookupQuery []) :=
      ⟨_, rfl, by simp [Message.Explained], by simp⟩
    exact ⟨.answer rfl howed (AList.lookup_insert _) hconforming, rfl⟩
  have hread : (Ledger.machine .asyncio Conforming).step ⟨arrived, []⟩ .read ⟨streamed, []⟩ :=
    ⟨.read rfl rfl rfl, rfl⟩
  have hnext : (Ledger.machine .asyncio Conforming).step ⟨streamed, []⟩ (.next 0) begun := by
    have hstep : Step .asyncio Conforming streamed (.next 0) begun.traffic := .next rfl rfl rfl
    exact ⟨hstep, rfl⟩
  have hstart : (Ledger.machine .asyncio Conforming).Reachable ⟨batching, []⟩ := .init ⟨hfresh, rfl⟩
  exact .step (.step (.step (.step hstart trivial hcall) trivial hanswer) trivial hread) trivial
    hnext

theorem due_bounded_begun : begun.traffic.due 1 ≤ 1 ∨ begun.traffic.due 1 = 2 ∧ ∃ id c e,
    begun.traffic.inst.cursorCache.lookup 1 = some id ∧ begun.traffic.inst.cursors[id]? = some c ∧
      c.query.token = 1 ∧ c.error = some e :=
  due_bounded (Ledger.traffic_reachable begun_reached) rfl 1

theorem returned_batches_begun : ∃ c : Cursor ℕ, begun.traffic.inst.cursors[0]? = some c ∧
    begun.returnedBy 0 = [7] ∧ c.items = [8] ∧
      begun.returnedBy 0 ++ c.items = batches c.jsonDecoder begun.traffic.heard c.query.token :=
  ⟨_, rfl, rfl, rfl, (Ledger.returned_batches begun_reached rfl rfl).2.1 rfl⟩

end Traffic
end RethinkDB.Async
