import RethinkDB.Net.Demux

/-! Responses that do not decode, whatever the server sends and the socket does: what becomes of the
cursor they are for, and who gets to see the failure. -/
namespace RethinkDB.Net
open RethinkDB.Lib Prog

variable {V : Type} {P : Peer V}

namespace Driver

/-- Nothing is handed out, cursors keep their queries and decoders, and those not `touched` stay as
they are. -/
structure Leaves (touched : ℕ → Prop) (d d' : Driver P) : Prop where
  handed : d'.handed = d.handed
  cursors : ∀ (id : ℕ) (c : Cursor V), d.cursors[id]? = some c →
    ∃ c', d'.cursors[id]? = some c' ∧ c'.query = c.query ∧ c'.jsonDecoder = c.jsonDecoder
  cache : ∀ (token : ℤ) (id : ℕ), d'.cursorCache.lookup token = some id →
    d.cursorCache.lookup token = some id ∨
      d.cursors.length ≤ id ∧ ∃ c, d'.cursors[id]? = some c ∧ c.query.token = token
  others : ∀ (id : ℕ) (c : Cursor V), ¬touched id → d.cursors[id]? = some c → d'.cursors[id]? = some c

section Leaves
variable {p : ℕ → Prop} {d d' : Driver P}

instance : Std.Refl (Leaves (P := P) p) :=
  ⟨fun _ => ⟨rfl, fun _ c hc => ⟨c, hc, rfl, rfl⟩, fun _ _ h => .inl h, fun _ _ _ hc => hc⟩⟩

/-- No cursor goes away. -/
theorem Leaves.length_le (h : Leaves p d d') : d.cursors.length ≤ d'.cursors.length := by
  by_contra hless
  have hlt : d'.cursors.length < d.cursors.length := by omega
  obtain ⟨c, hc, -⟩ := h.cursors _ _ (List.getElem?_eq_getElem hlt)
  exact absurd (List.getElem?_eq_some_iff.mp hc).1 (by omega)

theorem Leaves.trans {e : Driver P} (h : Leaves p d d') (h' : Leaves p d' e) :
    Leaves p d e where
  handed := h'.handed.trans h.handed
  cursors := by
    intro id c hc
    obtain ⟨c', hc', hquery, hdecoder⟩ := h.cursors id c hc
    obtain ⟨c'', hc'', hquery', hdecoder'⟩ := h'.cursors id c' hc'
    exact ⟨c'', hc'', hquery'.trans hquery, hdecoder'.trans hdecoder⟩
  cache := by
    intro token id hid
    rcases h'.cache token id hid with hold | hnew
    · rcases h.cache token id hold with hold | ⟨hlt, c, hc, htoken⟩
      · exact .inl hold
      · obtain ⟨c', hc', hquery, -⟩ := h'.cursors id c hc
        exact .inr ⟨hlt, c', hc', by rw [hquery, htoken]⟩
    · exact .inr ⟨h.length_le.trans hnew.1, hnew.2⟩
  others := fun id c ht hc => h'.others id c ht (h.others id c ht hc)

instance : IsTrans (Driver P) (Leaves p) := ⟨fun _ _ _ => Leaves.trans⟩

/-- A step on everything but cursors and cache. -/
theorem leaves_of_same (hhanded : d'.handed = d.handed) (hcursors : d'.cursors = d.cursors)
    (hcache : d'.cursorCache = d.cursorCache) : Leaves p d d' := by
  refine ⟨hhanded, ?_, ?_, ?_⟩
  · intro id c hc
    rw [hcursors]
    exact ⟨c, hc, rfl, rfl⟩
  · intro token id hid
    rw [hcache] at hid
    exact .inl hid
  · intro id c _ hc
    rw [hcursors]
    exact hc

/-- A step of one cursor. -/
theorem leaves_set {id : ℕ} {c c' : Cursor V} (ht : p id) (hc : d.cursors[id]? = some c)
    (hquery : c'.query = c.query) (hdecoder : c'.jsonDecoder = c.jsonDecoder) :
    Leaves p d { d with cursors := d.cursors.set id c' } := by
  have hlt : id < d.cursors.length := (List.getElem?_eq_some_iff.mp hc).1
  refine ⟨rfl, ?_, fun _ _ hid => .inl hid, ?_⟩
  · intro id' c₁ hc₁
    by_cases hid : id = id'
    · subst hid
      obtain rfl : c = c₁ := Option.some.inj (hc.symm.trans hc₁)
      exact ⟨c', by simp [hlt], hquery, hdecoder⟩
    · exact ⟨c₁, (List.getElem?_set_ne hid).trans hc₁, rfl, rfl⟩
  · intro id' c₁ hfree hc₁
    have hid : id ≠ id' := by
      rintro rfl
      exact hfree ht
    exact (List.getElem?_set_ne hid).trans hc₁

theorem cursor_leaves (id : ℕ) : Respects (Leaves p) (cursor id : Call P (Cursor V)) := by
  intro d
  rw [wp_cursor]
  exact ⟨fun c _ => ⟨by simp, Std.Refl.refl d⟩, fun _ => ⟨by simp, Std.Refl.refl d⟩⟩

theorem modifyCursor_leaves {id : ℕ} (ht : p id) {f : Cursor V → Cursor V}
    (hf : ∀ c, (f c).query = c.query ∧ (f c).jsonDecoder = c.jsonDecoder) :
    Respects (Leaves p) (modifyCursor id f : Call P Unit) := by
  intro d
  cases hc : d.cursors[id]? with
  | some c =>
    rw [modifyCursor_of hc]
    exact ⟨by simp, leaves_set ht hc (hf c).1 (hf c).2⟩
  | none =>
    rw [modifyCursor, wp_modify]
    have hsame : d.cursors.modify id f = d.cursors := by
      apply List.ext_getElem?
      intro j
      rw [List.getElem?_modify]
      by_cases hj : id = j
      · subst hj
        simp [hc]
      · simp [hj]
    exact ⟨by simp, leaves_of_same rfl hsame rfl⟩

theorem sendQuery_leaves (query : Query V) : Respects (Leaves p) (sendQuery query : Call P Unit) := by
  refine (respects_ofExcept _).bind fun message => Respects.bind (fun d => ?_) fun _ =>
    respects_modify fun _ => leaves_of_same rfl rfl rfl
  exact ⟨(sendall_keeps message d.io).back, leaves_of_same rfl rfl rfl⟩

theorem checkOpen_leaves : Respects (Leaves p) (checkOpen : Call P Unit) :=
  (respects_read _).bind fun _ => .ite (respects_pure _) (respects_throw _)

theorem termless_leaves (type : QueryType) (token : ℤ) :
    Respects (Leaves p) (termless type token : Call P (Query V)) :=
  (respects_read _).bind fun _ => respects_pure _

theorem cursorRequest_leaves (type : QueryType) (id : ℕ) :
    Respects (Leaves p) (cursorRequest type id : Call P Unit) :=
  checkOpen_leaves.bind fun _ => (cursor_leaves id).bind fun _ =>
    (termless_leaves _ _).bind fun _ => sendQuery_leaves _

theorem maybeFetchBatch_leaves {id : ℕ} (ht : p id) :
    Respects (Leaves p) (maybeFetchBatch id : Call P Unit) :=
  (cursor_leaves id).bind fun _ => .ite
    ((modifyCursor_leaves (f := Cursor.request) ht fun _ => ⟨rfl, rfl⟩).bind fun _ =>
      cursorRequest_leaves _ id) (respects_pure _)

theorem uncache_leaves (token : ℤ) : Respects (Leaves p) (uncache token : Call P Unit) := by
  intro d
  rw [wp_uncache]
  refine ⟨fun _ => ⟨by simp, rfl, fun _ c hc => ⟨c, hc, rfl, rfl⟩, ?_, fun _ _ _ hc => hc⟩,
    fun _ => ⟨by simp, Std.Refl.refl d⟩⟩
  intro token' id hid
  left
  by_cases ht : token' = token
  · rw [ht, AList.lookup_erase] at hid
    cases hid
  · rwa [AList.lookup_erase_ne ht] at hid

theorem storeResponse_leaves {id : ℕ} (ht : p id) (res : Response V) :
    Respects (Leaves p) (storeResponse id res : Call P Unit) := by
  intro d
  unfold storeResponse
  rw [wp_bind, wp_cursor]
  refine ⟨?_, fun _ => ⟨by simp, Std.Refl.refl d⟩⟩
  intro c hc
  rw [bindPost_ok]
  cases hstore : c.store res with
  | ok c' =>
    obtain ⟨items, threshold, error, rfl⟩ := Cursor.store_shape hstore
    rw [modifyCursor_of hc]
    exact ⟨by simp, leaves_set ht hc rfl rfl⟩
  | error e =>
    rw [wp_bind, modifyCursor_of hc, bindPost_ok, wp_throw]
    exact ⟨by simp, leaves_set ht hc rfl rfl⟩

theorem extendInternal_leaves {id : ℕ} (ht : p id) (res : Response V) :
    Respects (Leaves p) (extendInternal id res : Call P Unit) :=
  (storeResponse_leaves ht res).bind fun _ => (cursor_leaves id).bind fun _ =>
    .ite (uncache_leaves _) (respects_pure _)

theorem extend_leaves {id : ℕ} (ht : p id) (resBuf : Bytes) :
    Respects (Leaves p) (extend id resBuf : Call P Unit) :=
  (modifyCursor_leaves (f := Cursor.answered) ht fun _ => ⟨rfl, rfl⟩).bind fun _ =>
    (maybeFetchBatch_leaves ht).bind fun _ => (cursor_leaves id).bind fun _ => (respects_ofExcept _).bind fun _ => extendInternal_leaves ht _

theorem cursorError_leaves {id : ℕ} (ht : p id) (message : String) :
    Respects (Leaves p) (cursorError message id : Call P Unit) :=
  (cursor_leaves id).bind fun c => .ite
    ((modifyCursor_leaves (f := Cursor.fail (.runtime message c.query.term)) ht fun _ => ⟨rfl, rfl⟩).bind
      fun _ => (respects_read _).bind fun _ => extend_leaves ht _) (respects_pure _)

theorem close_leaves : Respects (Leaves fun _ => True) (close : Call P Unit) := by
  refine Respects.bind (respects_modify fun _ => leaves_of_same rfl rfl rfl) fun _ =>
    (respects_read _).bind fun _ => Respects.bind (.forEach (fun _ => cursorError_leaves trivial _) _)
      fun _ => respects_modify fun d => ?_
  refine ⟨rfl, fun _ c hc => ⟨c, hc, rfl, rfl⟩, ?_, fun _ _ _ hc => hc⟩
  intro token id hid
  rw [AList.lookup_empty] at hid
  cases hid

theorem register_leaves (query : Query V) (d : Driver P) : Leaves p d (register query d) := by
  have hkept : ∀ (id : ℕ) (c : Cursor V), d.cursors[id]? = some c →
      (register query d).cursors[id]? = some c := by
    intro id c hc
    exact (List.getElem?_append_left (List.getElem?_eq_some_iff.mp hc).1).trans hc
  refine ⟨rfl, fun id c hc => ⟨c, hkept id c hc, rfl, rfl⟩, ?_, fun id c _ hc => hkept id c hc⟩
  intro token id hid
  by_cases ht : token = query.token
  · right
    have hnew : (register query d).cursorCache.lookup query.token = some d.cursors.length :=
      AList.lookup_insert _
    rw [ht] at hid
    obtain rfl := Option.some.inj (hnew.symm.trans hid)
    exact ⟨le_rfl, _, List.getElem?_concat_length, ht.symm⟩
  · left
    have hold : (register query d).cursorCache.lookup token = d.cursorCache.lookup token :=
      AList.lookup_insert_ne ht
    exact hold.symm.trans hid

theorem newCursor_leaves (query : Query V) (first : Response V) :
    Respects (Leaves fun _ => True) (newCursor query first : Call P ℕ) :=
  (respects_read _).bind fun _ => Respects.bind (respects_modify fun d => register_leaves query d) fun _ =>
    (maybeFetchBatch_leaves trivial).bind fun _ => (extendInternal_leaves trivial _).bind fun _ =>
      respects_pure _

theorem replyTo_leaves (query : Query V) (res : Response V) :
    Respects (Leaves fun _ => True) (replyTo query res : Call P (Reply V)) := by
  unfold replyTo
  split
  · exact (respects_ofExcept _).bind fun _ => respects_pure _
  · exact (newCursor_leaves _ _).bind fun _ => respects_pure _
  · exact (newCursor_leaves _ _).bind fun _ => respects_pure _
  · exact respects_pure _
  · exact (respects_ofExcept _).bind fun _ => respects_pure _
  · exact (respects_ofExcept _).bind fun _ => respects_throw _

/-- Reading a frame touches no cursor. -/
theorem readFrame_leaves (deadline : Option ℤ) (d : Driver P) :
    wp (readFrame deadline) (fun _ d' => Leaves p d d' ∧ d'.cursors = d.cursors ∧
      d'.cursorCache = d.cursorCache) d := by
  have hsame : ∀ {d' : Driver P}, (∃ io header, d' = { d with io, headerInProgress := header }) →
      Leaves p d d' ∧ d'.cursors = d.cursors ∧ d'.cursorCache = d.cursorCache := by
    rintro d' ⟨io, header, rfl⟩
    exact ⟨leaves_of_same rfl rfl rfl, rfl, rfl⟩
  have hheader : wp (readHeader deadline) (fun _ d' => ∃ io header,
      d' = { d with io, headerInProgress := header }) d := by
    unfold readHeader
    rw [wp_bind, wp_read, bindPost_ok]
    cases d.headerInProgress with
    | some header =>
      change wp (ofExcept (parseHeader header)) _ d
      cases (parseHeader header : Except (Exn V) (ℤ × ℕ)) with
      | ok h => exact ⟨d.io, d.headerInProgress, rfl⟩
      | error e => exact ⟨d.io, d.headerInProgress, rfl⟩
    | none =>
      dsimp only
      rw [wp_bind, socket, wp_zoom]
      refine (show wp _ (fun _ _ => True) d.io from trivial).mono ?_
      rintro (header | e | _) io -
      · rw [bindPost_ok, wp_bind, wp_modify, bindPost_ok]
        cases (parseHeader header : Except (Exn V) (ℤ × ℕ)) with
        | ok h => exact ⟨io, some header, rfl⟩
        | error e => exact ⟨io, some header, rfl⟩
      · exact ⟨io, d.headerInProgress, rfl⟩
      · exact ⟨io, d.headerInProgress, rfl⟩
  unfold readFrame
  rw [wp_bind]
  refine hheader.mono ?_
  rintro (⟨token, length⟩ | e | _) d₁ ⟨io, header, rfl⟩
  · rw [bindPost_ok, wp_bind, socket, wp_zoom]
    refine (show wp _ (fun _ _ => True) io from trivial).mono ?_
    rintro (buf | e | _) io' -
    · rw [bindPost_ok, wp_bind, wp_modify, bindPost_ok, wp_pure]
      exact hsame ⟨io', none, rfl⟩
    · exact hsame ⟨io', header, rfl⟩
    · exact hsame ⟨io', header, rfl⟩
  · exact hsame ⟨io, header, rfl⟩
  · exact hsame ⟨io, header, rfl⟩

end Leaves

/-! ### A response that does not decode -/

variable {d d' : Driver P}

/-- The request `_extend` begins with changes no cursor but by counting, and only raises where the cursor
has no error. -/
theorem maybeFetchBatch_counts {id : ℕ} {c : Cursor V} (hc : d.cursors[id]? = some c) :
    wp (maybeFetchBatch id) (fun o d' => o ≠ .running ∧ d'.cursors[id]? = some c.fetch ∧
      ((∃ e, o = .error e) → c.error = none)) d := by
  have hlt : id < d.cursors.length := (List.getElem?_eq_some_iff.mp hc).1
  unfold maybeFetchBatch Cursor.fetch
  rw [cursor_of hc]
  by_cases hwants : c.WantsBatch
  · rw [if_pos hwants, if_pos hwants, wp_bind, modifyCursor_of hc, bindPost_ok]
    refine (cursorRequest_leaves (p := fun _ => False) .cont id _).mono ?_
    intro o d' ⟨hback, hleaves⟩
    exact ⟨hback, hleaves.others id c.request nofun (by simp [hlt]), fun _ => hwants.1⟩
  · rw [if_neg hwants, if_neg hwants, wp_pure]
    exact ⟨by simp, hc, nofun⟩

/-- `_extend` with a response that does not decode. -/
theorem extend_spoiled {id : ℕ} {c : Cursor V} (hc : d.cursors[id]? = some c) {buf : Bytes} {text : String}
    (hspoiled : c.jsonDecoder buf = .error text) :
    wp (extend id buf) (fun o d' => ∃ e c', o = .error e ∧ (c.error = none ∨ e = .foreign text) ∧
      d'.cursors[id]? = some c' ∧ c'.error = c.error) d := by
  have hlt : id < d.cursors.length := (List.getElem?_eq_some_iff.mp hc).1
  have hfetch : c.answered.fetch.error = c.error ∧ c.answered.fetch.query = c.query ∧
      c.answered.fetch.jsonDecoder = c.jsonDecoder := by
    unfold Cursor.fetch
    split <;> exact ⟨rfl, rfl, rfl⟩
  unfold extend
  rw [wp_bind, modifyCursor_of hc, bindPost_ok, wp_bind]
  have hc₁ : (d.cursors.set id c.answered)[id]? = some c.answered := by simp [hlt]
  refine (maybeFetchBatch_counts hc₁).mono ?_
  rintro (_ | e | _) d₁ ⟨hback, hc₂, herror⟩
  · rw [bindPost_ok, cursor_of hc₂, hfetch.2.2, Response.ofJson, hspoiled, wp_bind, wp_ofExcept_error,
      bindPost_error]
    exact ⟨_, _, rfl, .inr rfl, hc₂, hfetch.1⟩
  · exact ⟨e, _, rfl, .inl (herror ⟨e, rfl⟩), hc₂, hfetch.1⟩
  · exact absurd rfl hback

/-- A token in the cache names a cursor of that token. -/
def Registered (d : Driver P) : Prop :=
  ∀ (token : ℤ) (id : ℕ), d.cursorCache.lookup token = some id →
    ∃ c, d.cursors[id]? = some c ∧ c.query.token = token

theorem Registered.leaves {p : ℕ → Prop} (h : d.Registered) (hleaves : Leaves p d d') :
    d'.Registered := by
  intro token id hid
  rcases hleaves.cache token id hid with hold | hnew
  · obtain ⟨c, hc, htoken⟩ := h token id hold
    obtain ⟨c', hc', hquery, -⟩ := hleaves.cursors id c hc
    exact ⟨c', hc', by rw [hquery, htoken]⟩
  · exact hnew.2

/-- What a call hands out. Every response to a cursor decodes, unless the call fails; then the cursor is
left without an error, or its failure is what the call raises, and the cursor is not its `own`. -/
structure Handled (own : ℕ → Prop) {α : Type} (d : Driver P) (o : Outcome (Exn V) α) (d' : Driver P) :
    Prop where
  registered : d.Registered → d'.Registered
  cursors : ∀ (id : ℕ) (c : Cursor V), d.cursors[id]? = some c →
    ∃ c', d'.cursors[id]? = some c' ∧ c'.query = c.query ∧ c'.jsonDecoder = c.jsonDecoder
  handed : ∃ more, d'.handed = d.handed ++ more ∧
    ∀ (token : ℤ) (buf : Bytes) (id : ℕ), (token, buf, .cursor id) ∈ more →
      ∃ c, d'.cursors[id]? = some c ∧ ∀ text, c.jsonDecoder buf = .error text →
        ∃ e, o = .error e ∧ (c.error = none ∨ e = .foreign text ∧ ¬own id)

section Handled
variable {own : ℕ → Prop} {α β : Type}

theorem Leaves.handles {p : ℕ → Prop} (h : Leaves p d d') (o : Outcome (Exn V) α) :
    Handled own d o d' :=
  ⟨fun hd => hd.leaves h, h.cursors, [], by rw [h.handed, List.append_nil], nofun⟩

/-- One call after another that returned. -/
theorem Handled.trans {d₁ : Driver P} {a : α} {o : Outcome (Exn V) β} (h : Handled own d (.ok a) d₁)
    (h' : Handled own d₁ o d') : Handled own d o d' where
  registered := fun hd => h'.registered (h.registered hd)
  cursors := by
    intro id c hc
    obtain ⟨c₁, hc₁, hquery, hdecoder⟩ := h.cursors id c hc
    obtain ⟨c₂, hc₂, hquery', hdecoder'⟩ := h'.cursors id c₁ hc₁
    exact ⟨c₂, hc₂, hquery'.trans hquery, hdecoder'.trans hdecoder⟩
  handed := by
    obtain ⟨more, hmore, hfine⟩ := h.handed
    obtain ⟨more', hmore', hfine'⟩ := h'.handed
    refine ⟨more ++ more', by rw [hmore', hmore, List.append_assoc], ?_⟩
    intro token buf id hmem
    rcases List.mem_append.mp hmem with hold | hnew
    · obtain ⟨c, hc, hdecodes⟩ := hfine token buf id hold
      obtain ⟨c', hc', -, hdecoder⟩ := h'.cursors id c hc
      refine ⟨c', hc', ?_⟩
      intro text htext
      rw [hdecoder] at htext
      obtain ⟨e, he, -⟩ := hdecodes text htext
      cases he
    · exact hfine' token buf id hnew

/-- What a call raises, it raises out of what called it. -/
theorem Handled.raise {e : Exn V} (h : Handled own d (.error e : Outcome (Exn V) α) d') :
    Handled own d (.error e : Outcome (Exn V) β) d' := by
  refine ⟨h.registered, h.cursors, ?_⟩
  obtain ⟨more, hmore, hfine⟩ := h.handed
  refine ⟨more, hmore, ?_⟩
  intro token buf id hmem
  obtain ⟨c, hc, hdecodes⟩ := hfine token buf id hmem
  refine ⟨c, hc, ?_⟩
  intro text htext
  obtain ⟨e', he, hout⟩ := hdecodes text htext
  cases he
  exact ⟨e, rfl, hout⟩

theorem Handled.stay (h : Handled own d (.running : Outcome (Exn V) α) d') :
    Handled own d (.running : Outcome (Exn V) β) d' := by
  refine ⟨h.registered, h.cursors, ?_⟩
  obtain ⟨more, hmore, hfine⟩ := h.handed
  refine ⟨more, hmore, ?_⟩
  intro token buf id hmem
  obtain ⟨c, hc, hdecodes⟩ := hfine token buf id hmem
  refine ⟨c, hc, ?_⟩
  intro text htext
  obtain ⟨e, he, -⟩ := hdecodes text htext
  cases he

theorem Handled.bind {m : Call P α} {f : α → Call P β} (hm : wp m (Handled own d) d)
    (hf : ∀ a d₁, Handled own d (.ok a) d₁ → wp (f a) (Handled own d₁) d₁) :
    wp (m >>= f) (Handled own d) d := by
  rw [wp_bind]
  refine hm.mono ?_
  rintro (a | e | _) d₁ h
  · exact (hf a d₁ h).mono fun o d' h' => h.trans h'
  · exact h.raise
  · exact h.stay

theorem handles_of_leaves {p : ℕ → Prop} {m : Call P α} (hm : Respects (Leaves p) m)
    (d : Driver P) : wp m (Handled own d) d := (hm d).mono fun o _ h => h.2.handles o

end Handled

/-- The cursors whose own `next` is reading: they have the token of the query and no error. -/
def ReadsFor (own : ℕ → Prop) (query : Query V) (d : Driver P) : Prop :=
  ∀ id, own id → ∃ c, d.cursors[id]? = some c ∧ c.query.token = query.token ∧ c.error = none

/-- The induction is on the turns left. A response that does not decode ends the loop. -/
theorem readLoop_handles {own : ℕ → Prop} (query : Query V) (deadline : Option ℤ) (n : ℕ)
    (hregistered : d.Registered) (hreads : d.ReadsFor own query) :
    wp (readLoop query deadline n) (Handled own d) d := by
  induction n generalizing d with
  | zero => exact Leaves.handles (p := fun _ => False) (Std.Refl.refl d) _
  | succ n ih =>
    unfold readLoop
    rw [wp_bind]
    refine (readFrame_leaves (p := fun _ => False) deadline d).mono ?_
    rintro (⟨token, buf⟩ | e | _) d₁ ⟨hleaves, hcursors, hcache⟩
    · rw [bindPost_ok, wp_bind, wp_read, bindPost_ok]
      have hregistered₁ := hregistered.leaves hleaves
      cases hlookup : d₁.cursorCache.lookup token with
      | some id =>
        obtain ⟨c, hc, htoken⟩ := hregistered₁ token id hlookup
        -- the frame is handed to the cursor, which decodes it or raises
        let d₂ : Driver P := { d₁ with handed := d₁.handed ++ [(token, buf, .cursor id)] }
        have hc₂ : d₂.cursors[id]? = some c := hc
        have hhanded : ∀ (o : Outcome (Exn V) Unit) (d₃ : Driver P), Leaves (· = id) d₂ d₃ →
            (∃ c', d₃.cursors[id]? = some c' ∧ ∀ text, c'.jsonDecoder buf = .error text →
              ∃ e, o = .error e ∧ (c'.error = none ∨ e = .foreign text ∧ ¬own id)) →
            Handled own d o d₃ := by
          intro o d₃ hleaves₃ hspoiled
          refine ⟨fun _ => (show d₂.Registered from hregistered₁).leaves hleaves₃, ?_,
            [(token, buf, .cursor id)], ?_, ?_⟩
          · intro id' c₁ hc₁
            obtain ⟨c₂, hc₂', hquery, hdecoder⟩ := hleaves.cursors id' c₁ hc₁
            obtain ⟨c₃, hc₃, hquery', hdecoder'⟩ := hleaves₃.cursors id' c₂ hc₂'
            exact ⟨c₃, hc₃, hquery'.trans hquery, hdecoder'.trans hdecoder⟩
          · rw [hleaves₃.handed]
            show d₁.handed ++ _ = _
            rw [hleaves.handed]
          · intro token' buf' id' hmem
            obtain ⟨rfl, rfl, rfl⟩ : token' = token ∧ buf' = buf ∧ id' = id := by simpa using hmem
            exact hspoiled
        have hown : own id → c.error = none ∧ token = query.token := by
          intro hid
          obtain ⟨c₀, hc₀, htoken₀, herr₀⟩ := hreads id hid
          rw [← hcursors] at hc₀
          obtain rfl : c = c₀ := Option.some.inj (hc.symm.trans hc₀)
          exact ⟨herr₀, htoken.symm.trans htoken₀⟩
        dsimp only
        rw [wp_bind, hand, wp_modify, bindPost_ok, wp_bind]
        have hextend := extend_leaves (p := (· = id)) rfl buf d₂
        cases hdecode : c.jsonDecoder buf with
        | error text =>
          refine (hextend.and (extend_spoiled hc₂ hdecode)).mono ?_
          rintro o d₃ ⟨⟨-, hleaves₃⟩, e, c', rfl, hraised, hc', herr⟩
          apply Handled.raise (α := Unit)
          apply hhanded _ d₃ hleaves₃
          obtain ⟨c'', hc'', -, hdecoder⟩ := hleaves₃.cursors id c hc₂
          obtain rfl : c' = c'' := Option.some.inj (hc'.symm.trans hc'')
          refine ⟨c', hc', ?_⟩
          intro text' htext
          rw [hdecoder, hdecode] at htext
          cases htext
          refine ⟨e, rfl, ?_⟩
          rw [herr]
          by_cases herror : c.error = none
          · exact .inl herror
          · exact .inr ⟨hraised.resolve_left herror, fun hid => herror (hown hid).1⟩
        | ok m =>
          refine hextend.mono ?_
          rintro o d₃ ⟨hback, hleaves₃⟩
          have hthis : Handled own d o d₃ := by
            apply hhanded o d₃ hleaves₃
            obtain ⟨c', hc', -, hdecoder⟩ := hleaves₃.cursors id c hc₂
            refine ⟨c', hc', ?_⟩
            intro text htext
            rw [hdecoder, hdecode] at htext
            cases htext
          cases o with
          | ok u =>
            rw [bindPost_ok, wp_ite]
            refine ⟨fun _ => hthis.trans (Leaves.handles (p := fun _ => False)
              (Std.Refl.refl d₃) _), fun hother => ?_⟩
            refine (ih (hthis.registered hregistered) ?_).mono fun o d' h => hthis.trans h
            intro id' hid'
            obtain ⟨c₀, hc₀, htoken₀, herr₀⟩ := hreads id' hid'
            have hne : id' ≠ id := by
              rintro rfl
              exact hother (hown hid').2
            rw [← hcursors] at hc₀
            exact ⟨c₀, hleaves₃.others id' c₀ hne hc₀, htoken₀, herr₀⟩
          | error e => exact hthis.raise
          | running => exact absurd rfl hback
      | none =>
        have hother : ∀ recipient, (∀ id, recipient ≠ .cursor id) →
            Handled own d (.ok ()) { d₁ with handed := d₁.handed ++ [(token, buf, recipient)] } := by
          intro recipient hno
          refine ⟨fun hd => show d₁.Registered from hd.leaves hleaves, hleaves.cursors,
            [(token, buf, recipient)], ?_, ?_⟩
          · show d₁.handed ++ _ = _
            rw [hleaves.handed]
          · intro token' buf' id hmem
            simp only [List.mem_singleton, Prod.mk.injEq] at hmem
            exact absurd hmem.2.2.symm (hno id)
        dsimp only
        by_cases hmine : token = query.token
        · have hquery := hother .query (by simp)
          rw [if_pos hmine, wp_bind, hand, wp_modify, bindPost_ok, wp_bind, wp_read, bindPost_ok]
          refine (handles_of_leaves (p := fun _ => False)
            ((respects_ofExcept _).bind fun _ => respects_pure _) _).mono fun o d' h => hquery.trans h
        · have hnobody := hother .nobody (by simp)
          rw [if_neg hmine, wp_bind, hand, wp_modify, bindPost_ok, wp_bind, wp_read, bindPost_ok]
          by_cases hclosing : d₁.closing = true
          · rw [if_pos hclosing]
            refine (ih (hnobody.registered hregistered) ?_).mono fun o d' h => hnobody.trans h
            intro id hid
            obtain ⟨c₀, hc₀, hrest⟩ := hreads id hid
            rw [← hcursors] at hc₀
            exact ⟨c₀, hc₀, hrest⟩
          · rw [if_neg hclosing]
            exact (handles_of_leaves (close_leaves.bind fun _ => respects_throw _) _).mono
              fun o d' h => hnobody.trans h
    · exact hleaves.handles _
    · exact hleaves.handles _

/-! ### Operations -/

section Operations
variable {own : ℕ → Prop}

/-- The induction is on the turns left; a turn that reads does so for a cursor without an error. -/
theorem nextLoop_handles {id : ℕ} (hown : ∀ id', own id' → id' = id) (deadline : Option ℤ) (n : ℕ)
    (hregistered : d.Registered) : wp (nextLoop id deadline n) (Handled own d) d := by
  induction n generalizing d with
  | zero => exact Leaves.handles (p := fun _ => False) (Std.Refl.refl d) _
  | succ n ih =>
    unfold nextLoop
    rw [wp_bind, wp_cursor]
    refine ⟨fun c hc => ?_, fun _ => Leaves.handles (p := fun _ => False) (Std.Refl.refl d) _⟩
    rw [bindPost_ok]
    cases hitems : c.items with
    | cons v vs =>
      refine handles_of_leaves (p := fun _ => True) (Respects.bind ?_ fun _ => respects_pure _) d
      exact modifyCursor_leaves trivial fun _ => ⟨rfl, rfl⟩
    | nil =>
      refine Handled.bind (handles_of_leaves (p := fun _ => True)
        (maybeFetchBatch_leaves trivial) d) fun _ d₁ h₁ => ?_
      have hregistered₁ := h₁.registered hregistered
      obtain ⟨c', hc', hquery, -⟩ := h₁.cursors id c hc
      rw [cursor_of hc']
      cases herr : c'.error with
      | some e => exact Leaves.handles (p := fun _ => False) (Std.Refl.refl d₁) _
      | none =>
        have hreads : d₁.ReadsFor own c.query := by
          intro id' hid'
          rw [hown id' hid']
          exact ⟨c', hc', by rw [hquery], herr⟩
        refine Handled.bind ?_ fun _ d₂ h₂ => ih (h₂.registered hregistered₁)
        unfold readResponse
        rw [wp_bind, wp_read, bindPost_ok]
        exact readLoop_handles c.query deadline _ hregistered₁ hreads

theorem next_handles {id : ℕ} (hown : ∀ id', own id' → id' = id) (wait : Wait)
    (hregistered : d.Registered) : wp (next id wait) (Handled own d) d := by
  unfold next
  refine Handled.bind (handles_of_leaves (p := fun _ => False) (respects_ofExcept _) d)
    fun timeout d₁ h₁ => ?_
  have hregistered₁ := h₁.registered hregistered
  cases timeout with
  | none =>
    unfold getNext
    rw [wp_bind, wp_read, bindPost_ok]
    exact nextLoop_handles hown _ _ hregistered₁
  | some t =>
    have htime : wp time (Handled own d₁) d₁ := by
      have hleaves : Leaves (fun _ => False) d₁ (time d₁).2 := leaves_of_same rfl rfl rfl
      exact hleaves.handles _
    unfold getNext
    refine Handled.bind htime fun _ d₂ h₂ => ?_
    rw [wp_bind, wp_read, bindPost_ok]
    exact nextLoop_handles hown _ _ (h₂.registered hregistered₁)

theorem runQuery_handles (hown : ∀ id, ¬own id) (query : Query V) (noreply : Bool)
    (hregistered : d.Registered) : wp (runQuery query noreply) (Handled own d) d := by
  unfold runQuery
  refine Handled.bind (handles_of_leaves (p := fun _ => False) (sendQuery_leaves query) d)
    fun _ d₁ h₁ => ?_
  cases noreply with
  | true => exact Leaves.handles (p := fun _ => False) (Std.Refl.refl d₁) _
  | false =>
    refine Handled.bind ?_ fun res d₂ _ => ?_
    · unfold readResponse
      rw [wp_bind, wp_read, bindPost_ok]
      exact readLoop_handles query none _ (h₁.registered hregistered) fun id hid => absurd hid (hown id)
    · cases res with
      | some res => exact handles_of_leaves (replyTo_leaves query res) d₂
      | none => exact Leaves.handles (p := fun _ => False) (Std.Refl.refl d₂) _

theorem newToken_leaves {p : ℕ → Prop} : Respects (Leaves p) (newToken : Call P ℤ) :=
  (respects_read _).bind fun _ => Respects.bind (respects_modify fun _ => leaves_of_same rfl rfl rfl)
    fun _ => respects_pure _

theorem control_handles (hown : ∀ id, ¬own id) (type : QueryType) (hregistered : d.Registered) :
    wp (control type) (Handled own d) d := by
  unfold control
  refine Handled.bind (handles_of_leaves (p := fun _ => False) checkOpen_leaves d) fun _ d₁ h₁ => ?_
  refine Handled.bind (handles_of_leaves (p := fun _ => False) newToken_leaves d₁) fun _ d₂ h₂ => ?_
  refine Handled.bind (handles_of_leaves (p := fun _ => False) (termless_leaves _ _) d₂)
    fun _ d₃ h₃ => ?_
  exact runQuery_handles hown _ false (h₃.registered (h₂.registered (h₁.registered hregistered)))

theorem cursorClose_leaves (id : ℕ) :
    Respects (Leaves fun _ => True) (cursorClose id : Call P Unit) :=
  (cursor_leaves id).bind fun _ => .ite
    ((modifyCursor_leaves (f := Cursor.fail .cursorEmpty) trivial fun _ => ⟨rfl, rfl⟩).bind fun _ =>
      (respects_read _).bind fun _ => .ite
        ((modifyCursor_leaves (f := Cursor.request) trivial fun _ => ⟨rfl, rfl⟩).bind fun _ =>
          cursorRequest_leaves _ id) (respects_pure _)) (respects_pure _)

end Operations

def OwnNext (op : Op V) (id : ℕ) : Prop := ∃ wait, op = .next id wait

theorem op_handles (op : Op V) (hregistered : d.Registered) :
    wp op.call (Handled (OwnNext op) d) d := by
  cases op with
  | run term body jsonDecoder noreply =>
    unfold Op.call start
    refine Handled.bind (handles_of_leaves (p := fun _ => False) checkOpen_leaves d)
      fun _ d₁ h₁ => ?_
    refine Handled.bind (handles_of_leaves (p := fun _ => False) newToken_leaves d₁)
      fun _ d₂ h₂ => ?_
    refine runQuery_handles ?_ _ noreply (h₂.registered (h₁.registered hregistered))
    rintro id ⟨wait, hop⟩
    cases hop
  | next id wait =>
    unfold Op.call
    refine Handled.bind (next_handles ?_ wait hregistered) fun v d₁ _ => ?_
    · rintro id' ⟨wait', hop⟩
      cases hop
      rfl
    · exact Leaves.handles (p := fun _ => False) (Std.Refl.refl d₁) _
  | close id =>
    exact handles_of_leaves ((cursorClose_leaves id).bind fun _ => respects_pure _) d
  | noreplyWait =>
    refine control_handles ?_ .noreplyWait hregistered
    rintro id ⟨wait, hop⟩
    cases hop
  | server =>
    refine control_handles ?_ .serverInfo hregistered
    rintro id ⟨wait, hop⟩
    cases hop

/-! ### What becomes of the cursor -/

def handedBy (d d' : Driver P) : List (ℤ × Bytes × Recipient) := d'.handed.drop d.handed.length

/-- A cursor that is handed a response that does not decode carries an error from then on, and nobody but
its own `next` is raised the failure. -/
def Contained (op : Op V) (d : Driver P) (o : Outcome (Exn V) (Reply V)) (d' : Driver P) : Prop :=
  ∀ (token : ℤ) (buf : Bytes) (id : ℕ) (c : Cursor V) (text : String),
    (token, buf, .cursor id) ∈ handedBy d d' → d'.cursors[id]? = some c →
    c.jsonDecoder buf = .error text → c.error ≠ none ∧ (OwnNext op id ∨ o ≠ .error (.foreign text))

/-- Every response handed to a cursor decodes. -/
def Decodes (d d' : Driver P) : Prop :=
  ∀ (token : ℤ) (buf : Bytes) (id : ℕ) (c : Cursor V), (token, buf, .cursor id) ∈ handedBy d d' →
    d'.cursors[id]? = some c → ∃ m, c.jsonDecoder buf = .ok m

/-- In every run, whatever the server sends and the socket does, a failure to decode is contained only
where there is none: the cursor is left without an error, or another operation raises it. -/
theorem contained_iff_decodes (hcache : d.cursorCache = ∅) (ops : List (Op V))
    (op : Op V) :
    Contained op (session (ops.map Op.call) d).2 (op.call (session (ops.map Op.call) d).2).1
        (op.call (session (ops.map Op.call) d).2).2 ↔
      Decodes (session (ops.map Op.call) d).2 (op.call (session (ops.map Op.call) d).2).2 := by
  have hregistered : d.Registered := by
    intro token id hid
    rw [hcache, AList.lookup_empty] at hid
    cases hid
  have hreached : (session (ops.map Op.call) d).2.Registered := by
    have hkept : ∀ m ∈ ops.map (Op.call (P := P)), Maintains Registered Registered m := by
      intro m hm
      obtain ⟨op, -, rfl⟩ := List.mem_map.mp hm
      intro d hd
      exact (op_handles op hd).mono fun _ _ h => ⟨fun _ => h.registered hd, fun _ => h.registered hd⟩
    obtain ⟨hrun, hover⟩ := session_maintains hkept hregistered
    by_cases hrunning : .running ∈ (session (ops.map Op.call) d).1
    · exact hrun hrunning
    · exact hover hrunning
  obtain ⟨-, -, more, hmore, hfine⟩ := op_handles op hreached
  have hby : handedBy (session (ops.map Op.call) d).2 (op.call (session (ops.map Op.call) d).2).2 = more := by
    rw [handedBy, hmore, List.drop_left]
  constructor
  · intro hcontained token buf id c hmem hc
    cases hdecode : c.jsonDecoder buf with
    | ok m => exact ⟨m, rfl⟩
    | error text =>
      obtain ⟨herror, hraised⟩ := hcontained token buf id c text hmem hc hdecode
      rw [hby] at hmem
      obtain ⟨c', hc', hspoiled⟩ := hfine token buf id hmem
      obtain rfl : c = c' := Option.some.inj (hc.symm.trans hc')
      obtain ⟨e, ho, hlost | ⟨rfl, hother⟩⟩ := hspoiled text hdecode
      · exact absurd hlost herror
      · exact absurd ho (hraised.resolve_left hother)
  · intro hdecodes token buf id c text hmem hc hdecode
    obtain ⟨m, hm⟩ := hdecodes token buf id c hmem hc
    cases hdecode.symm.trans hm

def unrulyServer : Peer ℕ where
  State := Unit
  Act := ℤ × Bytes
  receive s _ := s
  act s a := (s, packHeader a.1 a.2.length ++ a.2)

/-- A new connection to it; the server gives these answers, each read in two chunks. -/
def unruly (answers : List (ℤ × Bytes)) : Driver unrulyServer where
  io :=
    { host := "localhost", port := 28015, isOpen := true, readBuffer := none, timeout := none
      incoming := []
      peer := ()
      env := answers.flatMap fun a => [.peer a, .recv (.chunk 11), .recv (.chunk 11)]
      sends := [], sent := [], clock := fun n => n, ticks := 0 }
  numbering := ⟨fun _ => [], nil_length_lt, [1]⟩
  nextToken := 0
  jsonDecoder := byteDecoder
  cursorCache := ∅
  headerInProgress := none
  closing := false
  cursors := []
  handed := []

/-- Both sides of it, where the second batch of a cursor decodes. -/
theorem contained_iff_decodes_batches :
    Contained (.next 0 (.bool true))
        (session ([.run none (.ok []) none false, .next 0 (.bool true)].map Op.call)
          (unruly [(0, [0, 5]), (0, [1, 6])])).2
        ((Op.next 0 (.bool true)).call
          (session ([.run none (.ok []) none false, .next 0 (.bool true)].map Op.call)
            (unruly [(0, [0, 5]), (0, [1, 6])])).2).1
        ((Op.next 0 (.bool true)).call
          (session ([.run none (.ok []) none false, .next 0 (.bool true)].map Op.call)
            (unruly [(0, [0, 5]), (0, [1, 6])])).2).2 ↔
      Decodes
        (session ([.run none (.ok []) none false, .next 0 (.bool true)].map Op.call)
          (unruly [(0, [0, 5]), (0, [1, 6])])).2
        ((Op.next 0 (.bool true)).call
          (session ([.run none (.ok []) none false, .next 0 (.bool true)].map Op.call)
            (unruly [(0, [0, 5]), (0, [1, 6])])).2).2 :=
  contained_iff_decodes rfl _ _

/-- The second of three batches does not decode: its `next` raises, and the one after it returns an item
of the third. -/
theorem spoiled_batch_skipped :
    ¬(∀ (d : Driver unrulyServer) (ops : List (Op ℕ)) (op : Op ℕ), d.cursorCache = ∅ →
      Contained op (session (ops.map Op.call) d).2 (op.call (session (ops.map Op.call) d).2).1
        (op.call (session (ops.map Op.call) d).2).2) ∧
    (session ([.run none (.ok []) none false, .next 0 (.bool true), .next 0 (.bool true),
      .next 0 (.bool true)].map Op.call) (unruly [(0, [0, 5]), (0, [9]), (0, [1, 7])])).1 =
      [.ok (.cursor 0), .ok (.value 5), .error (.foreign "no response"), .ok (.value 7)] := by
  constructor
  · intro h
    have hcontained := h (unruly [(0, [0, 5]), (0, [9]), (0, [1, 7])])
      [.run none (.ok []) none false, .next 0 (.bool true)] (.next 0 (.bool true)) rfl
    let d := (session ([.run none (.ok []) none false, .next 0 (.bool true)].map Op.call)
      (unruly [(0, [0, 5]), (0, [9]), (0, [1, 7])])).2
    let d' := ((Op.next 0 (.bool true)).call d).2
    have hhanded : handedBy d d' = [(0, [9], .cursor 0)] := by decide +kernel
    have hcursor : (d'.cursors[0]?.map fun c => (c.error,
        match c.jsonDecoder [9] with
        | .ok _ => none
        | .error text => some text)) = some (none, some "no response") := by decide +kernel
    obtain ⟨c, hc, hfields⟩ := Option.map_eq_some_iff.mp hcursor
    obtain ⟨herror, htext⟩ := Prod.mk.inj hfields
    have hspoiled : c.jsonDecoder [9] = .error "no response" := by
      cases hdecode : c.jsonDecoder [9] with
      | ok m =>
        rw [hdecode] at htext
        cases htext
      | error text =>
        rw [hdecode] at htext
        rw [Option.some.inj htext]
    have hmem : (0, [9], .cursor 0) ∈ handedBy d d' := by
      rw [hhanded]
      exact List.mem_singleton_self _
    exact (hcontained 0 [9] 0 c "no response" hmem hc hspoiled).1 herror
  · decide +kernel

end Driver
end RethinkDB.Net
