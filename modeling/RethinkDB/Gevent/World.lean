import RethinkDB.Gevent.Reader

/-! The greenlets of one gevent connection, its reader and the server, in any order: one greenlet at a
time runs, up to where it blocks. -/
namespace RethinkDB.Gevent
open RethinkDB.Lib Net Prog Async

variable {V : Type}

/-- `born` is history: the cursors in the order they were made, each as its query got it. -/
structure World (V : Type) where
  traffic : Traffic V
  reader : Reader V
  born : List (Cursor V)

inductive WorldStep (V : Type) where
  | task (i : TrafficStep V)
  /-- The last byte of a query is sent, and its call goes on to wait for the result. -/
  | send (token : ℤ)
  | read
  /-- The last byte of the reader's own request is sent, and its turn goes on. -/
  | resume

namespace World

/-- What becomes of the reader when its turn ends or waits. -/
def after (r : Reader V) : Outcome (Exn V) (Reader V) → Reader V
  | .ok r' => r'
  | _ => r

def failed : Outcome (Exn V) (Reader V) → Option (Exn V)
  | .error e => some e
  | _ => none

/-- The steps of other greenlets and of the server, that have nothing of their own here. -/
def Allows (w : World V) : TrafficStep V → Prop
  | .call _ | .silent | .sendRequest _ | .answer _ _ => True
  | .fetch id | .next id | .closeCursor id => ¬w.reader.Hides id
  | .handOver _ | .resume _ | .cancel _ | .read => False

/-- The turn of the reader, after its request is with the server. -/
def resumed (w : World V) (token : ℤ) (o : Outcome (Exn V) (Reader V)) (inst : Instance V) : World V :=
  { traffic := { w.traffic with inst, owed := w.traffic.owed ++ [token], failure := failed o }
    reader := after w.reader o
    born := match w.reader with
      | .opening id _ _ _ => w.born ++ inst.cursors[id]?.toList
      | _ => w.born }

/-- One greenlet runs, up to where it blocks. -/
inductive Step (conforms : Except String (Message V) → Prop) : World V → WorldStep V → World V → Prop
  | task {w : World V} {i T} : w.Allows i → Traffic.Step .trio conforms w.traffic i T →
      Step conforms w (.task i) { w with traffic := T }
  | send {w : World V} {token query} : w.traffic.failure = none →
      w.traffic.calls.lookup token = some ⟨query, .sending⟩ →
      Step conforms w (.send token) { w with traffic := { w.traffic with
        inst := w.traffic.inst.register query
        calls := w.traffic.calls.insert token ⟨query, .waiting w.traffic.inst.futures.length⟩
        owed := w.traffic.owed ++ [token] } }
  | read {w : World V} {token payload rest o inst} : w.traffic.failure = none → w.reader = .receiving →
      w.traffic.incoming = (token, payload) :: rest → handleFrame token payload w.traffic.inst = (o, inst) →
      Step conforms w .read { w with
        traffic := w.traffic.taken token payload rest inst (failed o)
        reader := after w.reader o }
  | resume {w : World V} {token o inst} : w.traffic.failure = none → w.reader.sending = some token →
      w.reader.rest w.traffic.inst = (o, inst) → Step conforms w .resume (w.resumed token o inst)

structure Fresh (w : World V) : Prop where
  traffic : w.traffic.Fresh
  reader : w.reader = .receiving
  born : w.born = []

def machine (conforms : Except String (Message V) → Prop) : Machine (World V) (WorldStep V) :=
  ⟨Fresh, Step conforms⟩

/-- A server whose answers have what their types promise, when they decode at all. -/
def Sound (answer : Except String (Message V)) : Prop :=
  ∀ m, answer = .ok m → m.Explained ∧ (m.type = .successAtom ∨ m.type = .serverInfo → m.data ≠ [])

/-! ### The books -/

/-- The request the reader is sending is due, and the query it is answering has left the table. -/
def foresee : Reader V → Instance V → Instance V
  | .receiving, s => s
  | .extending _ token _, s => { s with unsent := token :: s.unsent }
  | .opening _ query _ _, s =>
    { s with unsent := query.token :: s.unsent, userQueries := s.userQueries.erase query.token }

/-- The traffic as the reader will leave it. -/
def books (w : World V) : Traffic V := { w.traffic with inst := foresee w.reader w.traffic.inst }

@[simp] theorem foresee_isOpen (r : Reader V) (s : Instance V) : (foresee r s).isOpen = s.isOpen := by
  cases r <;> rfl

@[simp] theorem foresee_closing (r : Reader V) (s : Instance V) : (foresee r s).closing = s.closing := by
  cases r <;> rfl

@[simp] theorem foresee_cursors (r : Reader V) (s : Instance V) : (foresee r s).cursors = s.cursors := by
  cases r <;> rfl

@[simp] theorem foresee_futures (r : Reader V) (s : Instance V) : (foresee r s).futures = s.futures := by
  cases r <;> rfl

@[simp] theorem foresee_cursorCache (r : Reader V) (s : Instance V) :
    (foresee r s).cursorCache = s.cursorCache := by
  cases r <;> rfl

@[simp] theorem foresee_jsonDecoder (r : Reader V) (s : Instance V) :
    (foresee r s).jsonDecoder = s.jsonDecoder := by
  cases r <;> rfl

theorem foresee_unsent (r : Reader V) (s : Instance V) :
    (foresee r s).unsent = r.sending.toList ++ s.unsent := by
  cases r <;> rfl

variable {conforms : Except String (Message V) → Prop} {w w' : World V}

/-- A step of another greenlet is a step on the books. -/
theorem step_books {i : TrafficStep V} {T : Traffic V} (hopen : w.traffic.inst.isOpen = true)
    (hallows : w.Allows i) (hstep : Traffic.Step .trio conforms w.traffic i T) :
    Traffic.Step .trio conforms w.books i (books { w with traffic := T }) := by
  obtain ⟨traffic, reader, born⟩ := w
  cases hstep with
  | call hnone htoken => exact Traffic.Step.call hnone htoken
  | silent hnone => exact Traffic.Step.silent hnone
  | handOver _ _ => exact hallows.elim
  | resume _ _ => exact hallows.elim
  | cancel _ _ _ _ => exact hallows.elim
  | @fetch id inst hnone hlt hfetch =>
    have hc : traffic.inst.cursors[id]? = some traffic.inst.cursors[id] := List.getElem?_eq_getElem hlt
    have hc' : (foresee reader traffic.inst).cursors[id]? = some traffic.inst.cursors[id] := by
      rw [foresee_cursors]
      exact hc
    have hopen' : (foresee reader traffic.inst).isOpen = true := by
      rw [foresee_isOpen]
      exact hopen
    have hlt' : id < (foresee reader traffic.inst).cursors.length := by
      rw [foresee_cursors]
      exact hlt
    rw [Instance.maybeFetchBatch_of hopen hc] at hfetch
    obtain rfl := (Prod.mk.inj hfetch).2
    refine Traffic.Step.fetch hnone hlt' ?_
    rw [show (books ⟨traffic, reader, born⟩).inst = foresee reader traffic.inst from rfl,
      Instance.maybeFetchBatch_of hopen' hc']
    cases reader <;> exact rfl
  | @next id c v vs hnone hc hitems =>
    cases reader <;> exact Traffic.Step.next hnone hc hitems
  | @closeCursor id inst hnone hlt hclose =>
    have hc : traffic.inst.cursors[id]? = some traffic.inst.cursors[id] := List.getElem?_eq_getElem hlt
    have hc' : (foresee reader traffic.inst).cursors[id]? = some traffic.inst.cursors[id] := by
      rw [foresee_cursors]
      exact hc
    have hopen' : (foresee reader traffic.inst).isOpen = true := by
      rw [foresee_isOpen]
      exact hopen
    have hlt' : id < (foresee reader traffic.inst).cursors.length := by
      rw [foresee_cursors]
      exact hlt
    refine Traffic.Step.closeCursor hnone hlt' ?_
    rw [show (books ⟨traffic, reader, born⟩).inst = foresee reader traffic.inst from rfl]
    by_cases herr : traffic.inst.cursors[id].error = none
    · rw [Instance.closeCursor_of hopen hc herr] at hclose
      obtain rfl := (Prod.mk.inj hclose).2
      rw [Instance.closeCursor_of hopen' hc' herr]
      cases reader <;> exact rfl
    · rw [Instance.closeCursor_done hc herr] at hclose
      obtain rfl := (Prod.mk.inj hclose).2
      rw [Instance.closeCursor_done hc' herr]
  | @sendRequest before token after hnone hunsent =>
    have hsent : (foresee reader traffic.inst).unsent =
        (reader.sending.toList ++ before) ++ token :: after := by
      rw [foresee_unsent, hunsent, List.append_assoc]
    have hstep : Traffic.Step .trio conforms (books ⟨traffic, reader, born⟩) (.sendRequest token) _ :=
      Traffic.Step.sendRequest hnone hsent
    cases reader <;> exact hstep
  | answer hnone howed hcall hconforms =>
    refine Traffic.Step.answer hnone howed hcall ?_
    unfold Instance.getJsonDecoder at *
    rw [show (books ⟨traffic, reader, born⟩).inst = foresee reader traffic.inst from rfl,
      foresee_jsonDecoder]
    exact hconforms
  | read _ _ _ => exact hallows.elim

/-- Where a query stands that has not been sent. -/
theorem sending_quiet (h : w.books.Balanced) {t : ℤ} {query : Query V}
    (hcall : w.traffic.calls.lookup t = some ⟨query, .sending⟩) :
    query.token = t ∧ w.books.Quiet t 0 ∧ t < w.traffic.nextToken := by
  have hstation := h.station t
  have hbooks : w.books.calls.lookup t = some ⟨query, .sending⟩ := hcall
  unfold Traffic.Station at hstation
  rw [hbooks] at hstation
  exact ⟨hstation.1, hstation.2, h.tokens t (by simp [hbooks])⟩

/-- The reader is busy with queries that have been sent. -/
def Apart (w : World V) : Prop :=
  ∀ id query future res, w.reader = .opening id query future res →
    ∃ future, w.traffic.calls.lookup query.token = some ⟨query, .waiting future⟩

theorem balanced_send (h : w.books.Balanced) (hapart : w.Apart) {t : ℤ} {query : Query V}
    (hcall : w.traffic.calls.lookup t = some ⟨query, .sending⟩) :
    (books { w with traffic := { w.traffic with
      inst := w.traffic.inst.register query
      calls := w.traffic.calls.insert t ⟨query, .waiting w.traffic.inst.futures.length⟩
      owed := w.traffic.owed ++ [t] } }).Balanced := by
  obtain ⟨rfl, hquiet, hlt⟩ := sending_quiet h hcall
  obtain ⟨traffic, reader, born⟩ := w
  have hdue : ∀ t, (books ⟨{ traffic with
      inst := traffic.inst.register query
      calls := traffic.calls.insert query.token ⟨query, .waiting traffic.inst.futures.length⟩
      owed := traffic.owed ++ [query.token] }, reader, born⟩).due t =
        (books ⟨traffic, reader, born⟩).due t + [query.token].count t := by
    intro t
    simp only [Traffic.due, books, foresee_unsent, Instance.register, List.count_append]
    omega
  refine h.phase rfl rfl ?_ ?_ ?_ ?_ ?_ ?_ hlt (le_refl _) ?_ ?_
  · simp [books, Instance.register]
  · simp [books, Instance.register]
  · intro t' ht
    have hother : (foresee reader (traffic.inst.register query)).userQueries.lookup t' =
        (foresee reader traffic.inst).userQueries.lookup t' := by
      cases reader with
      | receiving | extending _ _ _ => exact AList.lookup_insert_ne ht
      | opening id q future res =>
        simp only [foresee, Instance.register]
        by_cases hq : t' = q.token
        · rw [hq, AList.lookup_erase, AList.lookup_erase]
        · rw [AList.lookup_erase_ne hq, AList.lookup_erase_ne hq, AList.lookup_insert_ne ht]
    exact hother
  · simp [books, Instance.register]
  · intro t' ht
    rw [hdue, List.count_singleton]
    simp [Ne.symm ht]
  · left
    refine ⟨?_, ?_, ?_⟩
    · rw [hdue, hquiet.due]
      simp
    · have hcache := hquiet.cache
      simpa [books, Instance.register] using hcache
    · have hown : (foresee reader (traffic.inst.register query)).userQueries.lookup query.token =
          some (query, traffic.inst.futures.length) := by
        cases reader with
        | receiving | extending _ _ _ => exact AList.lookup_insert _
        | opening id q future res =>
          have hne : query.token ≠ q.token := by
            intro heq
            obtain ⟨future', hwaits⟩ := hapart id q future res rfl
            rw [← heq] at hwaits
            cases hcall.symm.trans hwaits
          simp only [foresee, Instance.register]
          rw [AList.lookup_erase_ne hne, AList.lookup_insert]
      exact hown
  · simp [books, Instance.register]
  · simp [books, Instance.register]

/-! ### The reader -/

variable {t : ℤ} {payload : Bytes} {rest : List (ℤ × Bytes)} {q : Query V} {future id : ℕ} {c c' : Cursor V}

theorem due_books (w : World V) (t : ℤ) : w.books.due t = w.traffic.due t + w.reader.sending.toList.count t := by
  simp only [books, Traffic.due, foresee_unsent, List.count_append]
  omega

theorem books_receiving (h : w.reader = .receiving) : w.books = w.traffic := by
  unfold books
  rw [h]
  exact rfl

/-- A cursor asks for more in the middle of its `_extend`. -/
theorem balanced_extending (h : w.books.Balanced) (hreader : w.reader = .receiving)
    (hin : w.traffic.incoming = (t, payload) :: rest)
    (hcall : w.traffic.calls.lookup t = some ⟨q, .waiting future⟩) (htoken : q.token = t)
    (hstreams : w.traffic.Streams t q id c) (born : List (Cursor V)) :
    (books ⟨w.traffic.taken t payload rest
      { w.traffic.inst with cursors := w.traffic.inst.cursors.set id c.answered.request } none,
      .extending id t payload, born⟩).Balanced := by
  rw [books_receiving hreader] at h
  have hdue := Traffic.due_taken hin { w.traffic.inst with
    cursors := w.traffic.inst.cursors.set id c.answered.request } (List.append_nil _).symm none
  have hquery : c.answered.request.query = c.query := rfl
  refine h.cursor hcall htoken hstreams hquery rfl (fun herr => herr) rfl rfl rfl (.inl rfl) ?_ ?_
  · intro t' ht
    have hsame := hdue t'
    rw [due_books]
    simp [Reader.sending, Ne.symm ht] at hsame ⊢
    exact hsame
  · have hone := hdue t
    have hout := hstreams.outstanding
    rw [due_books]
    simp [Reader.sending, Cursor.request, Cursor.answered] at hone ⊢
    omega

/-- The reader opens a cursor. -/
theorem balanced_opening (h : w.books.Balanced) (hreader : w.reader = .receiving)
    (hin : w.traffic.incoming = (q.token, payload) :: rest)
    (hcall : w.traffic.calls.lookup q.token = some ⟨q, .waiting future⟩)
    (hwaits : w.traffic.Waits q.token q future) (res : Response V) (born : List (Cursor V)) :
    (books ⟨w.traffic.taken q.token payload rest { w.traffic.inst with
        cursors := w.traffic.inst.cursors ++ [unfilled w.traffic.inst q]
        cursorCache := w.traffic.inst.cursorCache.insert q.token w.traffic.inst.cursors.length } none,
      .opening w.traffic.inst.cursors.length q future res, born⟩).Balanced := by
  rw [books_receiving hreader] at h
  have hdue := Traffic.due_taken hin { w.traffic.inst with
    cursors := w.traffic.inst.cursors ++ [unfilled w.traffic.inst q]
    cursorCache := w.traffic.inst.cursorCache.insert q.token w.traffic.inst.cursors.length }
    (List.append_nil _).symm none
  refine h.opening hcall hwaits (c := unfilled w.traffic.inst q) rfl rfl rfl rfl rfl ?_ ?_
  · intro t' ht
    have hsame := hdue t'
    rw [due_books]
    simp [Reader.sending, Ne.symm ht] at hsame ⊢
    exact hsame
  · have hone := hdue q.token
    rw [hwaits.due] at hone
    rw [due_books]
    simp [Reader.sending, unfilled] at hone ⊢
    omega

/-- A cursor whose request was on its way gets its batch. -/
theorem balanced_resume (h : w.books.Balanced) (hsending : w.reader.sending = some t)
    (hcached : w.traffic.inst.cursorCache.lookup t = some id) (hc : w.traffic.inst.cursors[id]? = some c)
    {res : Response V} (hstore : c.store res = .ok c') {inst : Instance V}
    (hinst : inst = { foresee w.reader w.traffic.inst with
      cursors := w.traffic.inst.cursors.set id c', futures := inst.futures, unsent := w.traffic.inst.unsent })
    (born : List (Cursor V)) :
    (books ⟨{ w.traffic with inst, owed := w.traffic.owed ++ [t], failure := none }, .receiving,
      born⟩).Balanced := by
  have hbooks : w.books.inst.cursorCache.lookup t = some id := by
    simpa [books] using hcached
  obtain ⟨q, future, c₁, hcall, htoken, hstreams⟩ := h.cached hbooks
  have hsame : c₁ = c := by
    have hcursor := hstreams.cursor
    simp only [books, foresee_cursors] at hcursor
    exact Option.some.inj (hcursor.symm.trans hc)
  subst hsame
  obtain ⟨items, threshold, error, hshape⟩ := Cursor.store_shape hstore
  -- the request goes from the reader to the server
  let T₁ : Traffic V := { w.books with
    inst := { foresee w.reader w.traffic.inst with futures := inst.futures, unsent := w.traffic.inst.unsent }
    owed := w.traffic.owed ++ [t], failure := none }
  have hmoved : T₁.Balanced := by
    refine h.moved rfl (le_refl _) rfl ?_
    intro t'
    simp only [T₁, Traffic.due, books, foresee_unsent, hsending, List.count_append, Option.toList_some,
      List.count_cons, List.count_nil]
    omega
  have hdue : ∀ t', T₁.due t' = w.books.due t' := by
    intro t'
    simp only [T₁, Traffic.due, books, foresee_unsent, hsending, List.count_append, Option.toList_some,
      List.count_cons, List.count_nil]
    omega
  have hstreams₁ : T₁.Streams t q id c₁ := by
    refine ⟨hstreams.queries, hstreams.cache, hstreams.cursor, hstreams.query, hstreams.decoder, ?_⟩
    rw [hstreams.outstanding, hdue]
  have hcursors : (foresee w.reader w.traffic.inst).cursors.set id c' = w.traffic.inst.cursors.set id c' := by
    rw [foresee_cursors]
  have hquery : c'.query = c₁.query := by rw [hshape]
  refine hmoved.cursor hcall htoken hstreams₁ hquery ?_ ?_ rfl rfl ?_ (.inl ?_) ?_ ?_
  · rw [hshape]
  · intro herr
    by_contra hfailed
    exact hfailed ((Cursor.store_failed hstore hfailed).symm.trans herr)
  · change inst = { T₁.inst with
      cursors := T₁.inst.cursors.set id c', cursorCache := inst.cursorCache, unsent := inst.unsent }
    rw [hinst]
    simp only [T₁, hcursors]
  · change inst.cursorCache = _
    rw [hinst]
  · intro t' _
    simp only [T₁, Traffic.due, books, foresee]
    rw [hinst]
  · rw [hshape]
    apply hstreams₁.outstanding.trans
    simp only [T₁, Traffic.due, books, foresee]
    rw [hinst]

end World
end RethinkDB.Gevent
