import RethinkDB.Net.Arrival
import RethinkDB.Net.Connection
import RethinkDB.Net.Demux

/-! Closing a blocking connection: every cursor is finished where it stands, and the answer to the
`NOREPLY_WAIT` is found behind whatever else the server still owes. -/
namespace RethinkDB.Net
open RethinkDB.Lib Prog

variable {V : Type} {P : Peer V}

/-- What `_error` makes of a cursor. -/
structure Cursor.Discarded (message : String) (c c' : Cursor V) : Prop where
  query : c'.query = c.query
  items : c'.items = c.items
  decoder : c'.jsonDecoder = c.jsonDecoder
  error : c'.error = some (c.error.getD (.runtime message c.query.term))

theorem Cursor.Discarded.trans {message : String} {c c' c'' : Cursor V} (h : c.Discarded message c')
    (h' : c'.Discarded message c'') : c.Discarded message c'' :=
  ⟨h'.query.trans h.query, h'.items.trans h.items, h'.decoder.trans h.decoder, by
    rw [h'.error, h.error, Option.getD_some]⟩

namespace Driver

/-! ### The cursors -/

section Discarding
variable {d d' : Driver P} {message : String}

/-- `_error` pushes its dummy through `_extend`, where all that is left to do is to count it. -/
theorem cursorError_discards {id : ℕ} {c : Cursor V} (hc : d.cursors[id]? = some c)
    (hcached : c.error = none → c.query.token ∈ d.cursorCache)
    (hdummy : ∃ m, c.jsonDecoder d.numbering.dummyResponse = .ok m) :
    wp (cursorError message id) (fun o d' => o = .ok () ∧ ∃ c' cache, c.Discarded message c' ∧
      d' = { d with cursors := d.cursors.set id c', cursorCache := cache } ∧
      ∀ token, token ≠ c.query.token → cache.lookup token = d.cursorCache.lookup token) d := by
  have hlt : id < d.cursors.length := (List.getElem?_eq_some_iff.mp hc).1
  unfold cursorError
  rw [cursor_of hc]
  cases herr : c.error with
  | some e =>
    rw [if_neg (by simp), wp_pure]
    refine ⟨rfl, c, d.cursorCache, ⟨rfl, rfl, rfl, by rw [herr]; rfl⟩, ?_, fun _ _ => rfl⟩
    rw [set_of hc]
  | none =>
    obtain ⟨m, hm⟩ := hdummy
    let e : Exn V := .runtime message c.query.term
    let c₁ : Cursor V := (c.fail e).answered
    let c₂ : Cursor V := { c₁ with threshold := m.data.length }
    have hget : ∀ c' : Cursor V, (d.cursors.set id c')[id]? = some c' := fun c' => by simp [hlt]
    have hdiscarded : c.Discarded message c₂ := ⟨rfl, rfl, rfl, by rw [herr]; rfl⟩
    rw [if_pos rfl, wp_bind, modifyCursor_of hc, bindPost_ok, wp_bind, wp_read, bindPost_ok]
    unfold extend
    rw [wp_bind, modifyCursor_of (hget _), bindPost_ok, List.set_set]
    unfold maybeFetchBatch
    have hwants : ¬Cursor.WantsBatch c₁ := fun h => nomatch h.1
    rw [wp_bind, cursor_of (hget _), if_neg hwants, wp_pure, bindPost_ok, cursor_of (hget _)]
    have hjson : (Response.ofJson c₁.query.token d.numbering.dummyResponse c₁.jsonDecoder :
        Except (Exn V) _) = .ok { m with token := c₁.query.token } := by
      show Response.ofJson c.query.token d.numbering.dummyResponse c.jsonDecoder = _
      rw [Response.ofJson, hm]
      rfl
    rw [wp_ofExcept_bind_ok hjson]
    unfold extendInternal storeResponse
    have hstore : c₁.store { m with token := c₁.query.token } = .ok c₂ := rfl
    rw [wp_bind, cursor_of (hget _), hstore]
    dsimp only
    rw [modifyCursor_of (hget _), bindPost_ok, List.set_set, cursor_of (hget _), wp_ite, wp_uncache,
      wp_pure]
    refine ⟨fun _ => ⟨fun _ => ⟨rfl, c₂, _, hdiscarded, rfl, ?_⟩, fun hno => ?_⟩, fun _ => ?_⟩
    · exact fun token hne => AList.lookup_erase_ne hne
    · exact absurd (hcached herr) hno
    · exact ⟨rfl, c₂, d.cursorCache, hdiscarded, rfl, fun _ _ => rfl⟩

/-- `_error` can finish every cursor of `own`: the open ones are registered, each under a token of
its own, and their decoders take the dummy. -/
structure Discardable (own : ℕ → Prop) (d : Driver P) : Prop where
  cached : ∀ (id : ℕ) (c : Cursor V), own id → d.cursors[id]? = some c → c.error = none →
    c.query.token ∈ d.cursorCache
  distinct : ∀ (id id' : ℕ) (c c' : Cursor V), own id → own id' → d.cursors[id]? = some c →
    d.cursors[id']? = some c' → c.query.token = c'.query.token → id = id'
  dummy : ∀ (id : ℕ) (c : Cursor V), own id → d.cursors[id]? = some c →
    ∃ m, c.jsonDecoder d.numbering.dummyResponse = .ok m

variable {own : ℕ → Prop}

/-- One cursor done, the others can still be finished. -/
theorem Discardable.next (h : d.Discardable own) {id : ℕ} {c c' : Cursor V} (hid : own id)
    (hc : d.cursors[id]? = some c) (hdiscarded : c.Discarded message c') {cache : AList fun _ : ℤ => ℕ}
    (hcache : ∀ token, token ≠ c.query.token → cache.lookup token = d.cursorCache.lookup token) :
    Discardable own { d with cursors := d.cursors.set id c', cursorCache := cache } := by
  have hlt : id < d.cursors.length := (List.getElem?_eq_some_iff.mp hc).1
  have hback : ∀ (j : ℕ) (e : Cursor V), (d.cursors.set id c')[j]? = some e →
      ∃ e₀ : Cursor V, d.cursors[j]? = some e₀ ∧ e.query = e₀.query ∧ e.jsonDecoder = e₀.jsonDecoder ∧
        (e.error = none → e₀.error = none ∧ j ≠ id) := by
    intro j e he
    by_cases hj : id = j
    · subst hj
      obtain rfl : c' = e := by simpa [hlt] using he
      refine ⟨c, hc, hdiscarded.query, hdiscarded.decoder, ?_⟩
      rw [hdiscarded.error]
      exact nofun
    · rw [List.getElem?_set_ne hj] at he
      exact ⟨e, he, rfl, rfl, fun herr => ⟨herr, Ne.symm hj⟩⟩
  constructor
  · intro j e hown he herr
    obtain ⟨e₀, he₀, hquery, -, hopen⟩ := hback j e he
    obtain ⟨herr₀, hj⟩ := hopen herr
    have hne : e₀.query.token ≠ c.query.token :=
      fun heq => hj (h.distinct j id e₀ c hown hid he₀ hc heq)
    have hmem := h.cached j e₀ hown he₀ herr₀
    rw [← AList.lookup_isSome] at hmem
    show e.query.token ∈ cache
    rw [← AList.lookup_isSome, hquery, hcache _ hne]
    exact hmem
  · intro j j' e e' hown hown' he he' htoken
    obtain ⟨e₀, he₀, hquery, -⟩ := hback j e he
    obtain ⟨e₁, he₁, hquery', -⟩ := hback j' e' he'
    rw [hquery, hquery'] at htoken
    exact h.distinct j j' e₀ e₁ hown hown' he₀ he₁ htoken
  · intro j e hown he
    obtain ⟨e₀, he₀, -, hdecoder, -⟩ := hback j e he
    rw [hdecoder]
    exact h.dummy j e₀ hown he₀

/-- The induction is on the cursors still to be finished. -/
theorem forEach_discards (ids : List ℕ) (hids : ∀ id ∈ ids, own id ∧ id < d.cursors.length)
    (h : d.Discardable own) :
    wp (forEach (cursorError message) ids) (fun o d' => o = .ok () ∧ ∃ cursors cache,
      d' = { d with cursors, cursorCache := cache } ∧ cursors.length = d.cursors.length ∧
      ∀ (id : ℕ) (c : Cursor V), d.cursors[id]? = some c → ∃ c' : Cursor V, cursors[id]? = some c' ∧
        if id ∈ ids then c.Discarded message c' else c' = c) d := by
  induction ids generalizing d with
  | nil =>
    refine ⟨rfl, d.cursors, d.cursorCache, rfl, rfl, ?_⟩
    intro id c hc
    exact ⟨c, hc, by simp⟩
  | cons id ids ih =>
    obtain ⟨hown, hlt⟩ := hids id List.mem_cons_self
    obtain ⟨c, hc⟩ : ∃ c, d.cursors[id]? = some c := ⟨_, List.getElem?_eq_getElem hlt⟩
    unfold forEach
    rw [wp_bind]
    refine (cursorError_discards hc (h.cached id c hown hc) (h.dummy id c hown hc)).mono ?_
    rintro o d₁ ⟨rfl, c₁, cache, hdiscarded, rfl, hcache⟩
    rw [bindPost_ok]
    have hids₁ : ∀ j ∈ ids, own j ∧ j < (d.cursors.set id c₁).length := by
      intro j hj
      rw [List.length_set]
      exact hids j (List.mem_cons_of_mem _ hj)
    refine (ih hids₁ (h.next hown hc hdiscarded hcache)).mono ?_
    rintro o d' ⟨rfl, cursors, cache', rfl, hlength, hall⟩
    refine ⟨rfl, cursors, cache', rfl, hlength.trans List.length_set, ?_⟩
    intro j e he
    by_cases hj : id = j
    · subst hj
      obtain rfl : c = e := Option.some.inj (hc.symm.trans he)
      obtain ⟨c', hc', hrest⟩ := hall id c₁ (by simp [hlt])
      refine ⟨c', hc', ?_⟩
      rw [if_pos List.mem_cons_self]
      split_ifs at hrest
      · exact hdiscarded.trans hrest
      · rw [hrest]
        exact hdiscarded
    · obtain ⟨e', he', hrest⟩ := hall j e ((List.getElem?_set_ne hj).trans he)
      refine ⟨e', he', ?_⟩
      simpa [List.mem_cons, Ne.symm hj] using hrest

end Discarding
/-! ### The answer to the `NOREPLY_WAIT` -/

/-- Frames that are given to nobody. -/
def skipped (fs : List Frame) : List (ℤ × Bytes × Recipient) :=
  fs.map fun f => (f.token, f.payload, .nobody)

section Waiting
variable {d : Driver P}

/-- While closing, the loop passes over whatever is not for its query. The induction is on the turns
left. -/
theorem readLoop_skips (query : Query V) (n : ℕ) {before after : List Frame} {own : Frame}
    {m : Message V} (hn : d.turns ≤ n) (hclosing : d.closing = true) (hcache : d.cursorCache = ∅)
    (hin : d.Inbound (before ++ own :: after)) (hbefore : ∀ f ∈ before, f.token ≠ query.token)
    (hown : own.token = query.token) (hstock : (encodeFrames (before ++ [own])).length ≤ d.stock)
    (hdec : d.getJsonDecoder query own.payload = .ok m) :
    wp (readLoop query none n) (fun o d' => o = .ok (some { m with token := query.token }) ∧ ∃ io,
      d' = { d with io, headerInProgress := none,
                    handed := d.handed ++ skipped before ++ [(own.token, own.payload, .query)] }) d := by
  induction n generalizing d before with
  | zero =>
    unfold turns at hn
    split_ifs at hn <;> omega
  | succ n ih =>
    unfold readLoop
    rw [wp_bind]
    refine (readFrame_inbound hin).mono ?_
    rintro (⟨token, buf⟩ | e | _) d₁ hpost
    · obtain ⟨f, rest, io, hfs, rfl, rfl, hin₁, heq, hstock₁, hturns⟩ := hpost
      have hnone : d₁.cursorCache.lookup f.token = none := by
        rw [heq]
        show d.cursorCache.lookup f.token = none
        rw [hcache, AList.lookup_empty]
      have hclosing₁ : d₁.closing = true := by rw [heq]; exact hclosing
      rw [bindPost_ok, wp_bind, wp_read, bindPost_ok, hnone]
      dsimp only
      cases before with
      | nil =>
        obtain ⟨rfl, rfl⟩ : own = f ∧ after = rest := by simpa using hfs
        rw [if_pos hown, wp_bind, hand, wp_modify, bindPost_ok, wp_bind, wp_read, bindPost_ok]
        have hjson : (Response.ofJson own.token own.payload (d₁.getJsonDecoder query) :
            Except (Exn V) _) = .ok { m with token := query.token } := by
          have hdec₁ : d₁.getJsonDecoder query own.payload = .ok m := by rw [heq]; exact hdec
          rw [Response.ofJson, hdec₁, hown]
        refine (wp_ofExcept_bind_ok hjson).mpr ?_
        rw [wp_pure]
        refine ⟨rfl, io, ?_⟩
        rw [heq]
        simp [skipped]
      | cons g before =>
        obtain ⟨rfl, rfl⟩ : g = f ∧ before ++ own :: after = rest := by simpa using hfs
        have hother := hbefore g List.mem_cons_self
        rw [if_neg hother, wp_bind, hand, wp_modify, bindPost_ok, wp_bind, wp_read, bindPost_ok,
          if_pos hclosing₁]
        have hlength : (encodeFrames (g :: before ++ [own])).length =
            g.encode.length + (encodeFrames (before ++ [own])).length := by
          rw [encodeFrames, List.cons_append, List.flatMap_cons, List.length_append]
          rfl
        refine (ih (d := { d₁ with handed := d₁.handed ++ [(g.token, g.payload, .nobody)] })
          (Nat.le_of_lt_succ (hturns.trans_le hn)) hclosing₁ ?_
          ⟨hin₁.isOpen, hin₁.buffer, hin₁.soft, hin₁.header, hin₁.bytes⟩
          (fun f hf => hbefore f (List.mem_cons_of_mem _ hf)) ?_ ?_).mono ?_
        · rw [heq]
          exact hcache
        · show _ ≤ d₁.stock
          omega
        · rw [heq]
          exact hdec
        · rintro o d' ⟨rfl, io', rfl⟩
          refine ⟨rfl, io', ?_⟩
          rw [heq]
          simp [skipped]
    · exact hpost.elim
    · obtain ⟨f, rest, hcons⟩ : ∃ f rest, before ++ own :: after = f :: rest := by
        cases before with
        | nil => exact ⟨_, _, rfl⟩
        | cons g before => exact ⟨_, _, rfl⟩
      have hless := hpost f rest hcons
      have hle : f.encode.length ≤ (encodeFrames (before ++ [own])).length := by
        cases before with
        | nil =>
          obtain ⟨rfl, -⟩ := List.cons.inj hcons
          simp [encodeFrames]
        | cons g before =>
          obtain ⟨rfl, -⟩ := List.cons.inj hcons
          simp [encodeFrames]
      omega

/-- The whole wait, once the query is on its way. -/
theorem runDetached_waits {query : Query V} {message : Bytes} {before after : List Frame} {own : Frame}
    {m : Message V} (hopen : d.io.isOpen = true) (hsends : ∀ o ∈ d.io.sends, o.Soft)
    (hserialize : query.serialize = .ok message) (hclosing : d.closing = true)
    (hcache : d.cursorCache = ∅) (hbefore : ∀ f ∈ before, f.token ≠ query.token)
    (hown : own.token = query.token) (hdec : d.getJsonDecoder query own.payload = .ok m)
    (hcomplete : m.type = .waitComplete)
    (hin : ∀ sends sent, Inbound { d with io := { d.io with sends, sent, peer := P.receive d.io.peer query } }
      (before ++ own :: after))
    (hstock : ∀ sends sent, (encodeFrames (before ++ [own])).length ≤
      stock { d with io := { d.io with sends, sent, peer := P.receive d.io.peer query } }) :
    wp (runDetached query) (fun o d' => o = .ok () ∧ ∃ io, d' = { d with
      io, headerInProgress := none,
      handed := d.handed ++ skipped before ++ [(own.token, own.payload, .query)] }) d := by
  obtain ⟨sends, sent, -, heq⟩ := sendQuery_accepted hopen hsends hserialize
  unfold runDetached
  rw [wp_bind_of_eq heq, wp_bind]
  unfold readResponse
  rw [wp_bind, wp_read, bindPost_ok]
  have hturns : ∀ d : Driver P, d.turns ≤ d.io.env.length + 2 := by
    intro d
    unfold turns
    split_ifs <;> omega
  let d₁ : Driver P := { d with io := { d.io with sends, sent, peer := P.receive d.io.peer query } }
  refine (readLoop_skips (d := d₁) query _ (hturns _) hclosing hcache (hin sends sent) hbefore hown
    (hstock sends sent) hdec).mono ?_
  rintro o d' ⟨rfl, io, rfl⟩
  rw [bindPost_ok]
  dsimp only
  rw [hcomplete]
  exact ⟨rfl, io, rfl⟩

end Waiting
/-! ### Closing in any state a session reaches -/

/-- The bytes of answers with these payloads. -/
def volume (as : List (ℤ × Bytes)) : ℕ := (as.map fun a => 12 + a.2.length).sum

section Closing
variable {default : Decoder V} {d : Driver (conformingServer default Message.Explained)}
  {returned : ℕ → List V}

variable (default) in
theorem acts_volume (as : List (ℤ × Bytes)) (s : ServerState V) :
    ((conformingServer default Message.Explained).acts s as).2.length ≤ volume as := by
  induction as generalizing s with
  | nil => simp [Peer.acts]
  | cons a as ih =>
    have hfirst : (s.answer default Message.Explained a).2.length ≤ 12 + a.2.length := by
      unfold ServerState.answer
      split_ifs <;> simp [encodeFrames, Frame.encode]
    have hrest := ih (s.answer default Message.Explained a).1
    have hsum : ((conformingServer default Message.Explained).acts s (a :: as)).2.length =
        (s.answer default Message.Explained a).2.length + ((conformingServer default
          Message.Explained).acts (s.answer default Message.Explained a).1 as).2.length :=
      List.length_append
    refine hsum.trans_le ?_
    rw [volume, List.map_cons, List.sum_cons]
    exact Nat.add_le_add hfirst hrest

/-- The answer to a `NOREPLY_WAIT` under `token` arrives: the server gives it, a `WAIT_COMPLETE`, and
the schedule has `recv`s enough for all that is sent before, `waiting` bytes being there already. -/
structure Answers (decoder : Decoder V) (token : ℤ) (env : List (Event (ℤ × Bytes))) (waiting : ℕ) :
    Prop where
  complete : ∀ payload, .peer (token, payload) ∈ env →
    ∃ m, decoder payload = .ok m ∧ m.type = .waitComplete
  arrives : ∃ (f : Frame) (before after : List (Event (ℤ × Bytes))), f.token = token ∧
    env = before ++ .peer (f.token, f.payload) :: after ∧
    waiting + volume (actsOf before ++ [(f.token, f.payload)]) ≤ deliveries after

/-- What is found on the way: frames for others, then the answer. -/
theorem Answers.found {decoder : Decoder V} {token : ℤ} {env : List (Event (ℤ × Bytes))} {waiting : ℕ}
    (h : Answers decoder token env waiting) {s : ServerState V} {done fs : List Frame}
    (hanswers : s.answers = done ++ fs) (htold : s.told token = 0) (hasked : 0 < s.asked token)
    (hdecoder : s.decoder default token = decoder) :
    ∃ (before after : List Frame) (own : Frame) (m : Message V),
      (∀ f ∈ before, f.token ≠ token) ∧ own.token = token ∧
      decoder own.payload = .ok m ∧ m.type = .waitComplete ∧
      encodeFrames fs ++ ((conformingServer default Message.Explained).acts s (actsOf env)).2 =
        encodeFrames (before ++ own :: after) ∧
      (encodeFrames (before ++ [own])).length + waiting ≤ (encodeFrames fs).length +
        Transport.supplied (P := conformingServer default Message.Explained) env s waiting := by
  obtain ⟨f, pre, post, rfl, henv, hroom⟩ := h.arrives
  let acts : List (ℤ × Bytes) := actsOf pre ++ [(f.token, f.payload)]
  have hacts : actsOf env = acts ++ actsOf post := by
    rw [henv, actsOf_append]
    simp [acts, actsOf]
  -- the answer is among the frames sent by the time of its action
  obtain ⟨m₀, hm₀, htype₀⟩ := h.complete f.payload (by rw [henv]; simp)
  have hdec : s.Decodes default Message.Explained f.token f.payload := by
    refine ⟨m₀, ?_, by simp [Message.Explained, htype₀]⟩
    rw [hdecoder]
    exact hm₀
  obtain ⟨new, hnew, hbytes, hfrom⟩ := ServerState.acts_new default Message.Explained acts s
  obtain ⟨later, -, hlater, -⟩ := ServerState.acts_new default Message.Explained (actsOf post)
    ((conformingServer default Message.Explained).acts s acts).1
  obtain ⟨g, hg, hgtoken⟩ := ServerState.acts_owed (actsOf pre) htold hasked hdec hnew
  have hfound : ((fs ++ new).find? (·.token = f.token)).isSome := by
    rw [List.find?_isSome]
    exact ⟨g, List.mem_append_right _ hg, by simpa using hgtoken⟩
  obtain ⟨own, hown⟩ := Option.isSome_iff_exists.mp hfound
  obtain ⟨hmine, before, tail, hsplit, hbefore⟩ := List.find?_eq_some_iff_append.mp hown
  simp only [decide_eq_true_eq] at hmine
  have hnotold : own ∉ fs := by
    intro hmem
    refine absurd htold (Nat.pos_iff_ne_zero.mp ?_)
    rw [ServerState.told, hanswers]
    exact List.countP_pos_iff.mpr ⟨own, List.mem_append_right _ hmem, by simpa using hmine⟩
  have hmem : own ∈ fs ++ new := by
    rw [hsplit]
    simp
  have hownact : (own.token, own.payload) ∈ actsOf env := by
    rw [hacts]
    exact List.mem_append_left _ (hfrom own ((List.mem_append.mp hmem).resolve_left hnotold))
  obtain ⟨m, hm, htype⟩ := h.complete own.payload (by rw [← hmine]; exact mem_actsOf.mp hownact)
  refine ⟨before, tail ++ later, own, m, fun x hx => by simpa using hbefore x hx, hmine, hm, htype, ?_, ?_⟩
  · have hall : ((conformingServer default Message.Explained).acts s (actsOf env)).2 =
        encodeFrames new ++ encodeFrames later := by
      have happend := Peer.acts_append (P := conformingServer default Message.Explained) s acts (actsOf post)
      refine (congrArg (fun as => ((conformingServer default Message.Explained).acts s as).2) hacts).trans
        ((congrArg Prod.snd happend).trans ?_)
      exact congrArg₂ (· ++ ·) hbytes hlater
    rw [hall, ← List.append_assoc, ← encodeFrames_append, ← encodeFrames_append, hsplit]
    simp
  · have hpre : actsOf (pre ++ [.peer (f.token, f.payload)]) = acts := actsOf_append _ _
    have hcut' : env = pre ++ [.peer (f.token, f.payload)] ++ post := by
      rw [henv]
      simp
    have hroom' := (Nat.add_le_add_left (acts_volume default acts s) waiting).trans hroom
    have hsent : (encodeFrames new).length =
        ((conformingServer default Message.Explained).acts s acts).2.length := congrArg List.length hbytes.symm
    have hsup := Transport.le_supplied (P := conformingServer default Message.Explained) hcut' hpre s waiting hroom'
    have hle := (Nat.add_le_add_left hsent.le waiting).trans hsup
    have hprefix : (encodeFrames (before ++ [own])).length ≤ (encodeFrames (fs ++ new)).length := by
      have hcut : fs ++ new = before ++ [own] ++ tail := by
        rw [hsplit]
        simp
      rw [hcut, encodeFrames_append (before ++ [own]), List.length_append]
      exact Nat.le_add_right _ _
    have hcat : (encodeFrames (fs ++ new)).length = (encodeFrames fs).length + (encodeFrames new).length := by
      rw [encodeFrames_append, List.length_append]
    omega

theorem mem_cachedCursors {d : Driver P} {id : ℕ} :
    id ∈ d.cachedCursors ↔ ∃ token, d.cursorCache.lookup token = some id := by
  unfold cachedCursors
  rw [List.mem_reverse, List.mem_map]
  constructor
  · rintro ⟨⟨token, id'⟩, hmem, rfl⟩
    exact ⟨token, AList.mem_lookup_iff.mpr hmem⟩
  · rintro ⟨token, hlookup⟩
    exact ⟨⟨token, id⟩, AList.mem_lookup_iff.mp hlookup, rfl⟩

/-- Every cursor can be finished in the states a session reaches. -/
theorem Ready.discardable (h : d.Ready none returned)
    (hdummy : ∀ (id : ℕ) (c : Cursor V), d.cursors[id]? = some c →
      ∃ m, c.jsonDecoder d.numbering.dummyResponse = .ok m) : d.Discardable fun _ => True where
  cached := by
    intro id c _ hc herr
    have hlookup := (h.books.cache c.query.token id).mpr ⟨c, hc, rfl, .inl herr⟩
    rw [← AList.lookup_isSome, hlookup]
    rfl
  distinct := fun id id' c c' _ _ => h.books.distinct id id' c c'
  dummy := fun id c _ => hdummy id c

/-- What is left of an instance that `close` found as `d`. -/
structure Finished (noreplyWait : Bool) (d d' : Driver P) : Prop where
  isOpen : d'.io.isOpen = false
  header : d'.headerInProgress = none
  token : d'.nextToken = 0
  cache : d'.cursorCache = ∅
  length : d'.cursors.length = d.cursors.length
  cursors : ∀ (id : ℕ) (c : Cursor V), d.cursors[id]? = some c →
    ∃ c', d'.cursors[id]? = some c' ∧ c.Discarded "Connection is closed." c'
  quiet : noreplyWait = false → d'.handed = d.handed
  waited : noreplyWait = true → ∃ (others : List Frame) (own : Frame) (m : Message V),
    d'.handed = d.handed ++ skipped others ++ [(own.token, own.payload, .query)] ∧
    (∀ f ∈ others, f.token ≠ d.nextToken) ∧ own.token = d.nextToken ∧
    d.jsonDecoder own.payload = .ok m ∧ m.type = .waitComplete

def waitQuery (d : Driver P) : Query V :=
  { type := .noreplyWait, token := d.nextToken, term := none
    body := .ok (d.numbering.queryJson .noreplyWait), jsonDecoder := none, noreply := false }

/-- What the server owes once it has that query. -/
theorem Ready.owes (h : d.Ready none returned) :
    (d.state.receive d.waitQuery).told d.nextToken = 0 ∧
      0 < (d.state.receive d.waitQuery).asked d.nextToken ∧
      (d.state.receive d.waitQuery).decoder default d.nextToken = d.jsonDecoder := by
  obtain ⟨hfresh, hasked, -, -⟩ := h.books.fresh (show d.nextToken ≤ d.nextToken from le_rfl)
  have hrequests : (d.state.receive d.waitQuery).requests = d.state.requests ++ [d.waitQuery] := by
    rw [ServerState.receive, if_pos (.inl (by simp [waitQuery]))]
  refine ⟨?_, ?_, ?_⟩
  · have howed := h.books.polite.owed d.nextToken
    rw [hasked] at howed
    rw [ServerState.told, ServerState.receive_answers]
    exact Nat.le_zero.mp howed
  · rw [ServerState.asked, hrequests, List.countP_append, List.countP_singleton]
    simp [waitQuery]
  · have hnone : d.state.requests.find? (·.token = d.nextToken) = none := by
      rw [List.find?_eq_none]
      intro q hq
      simpa using hfresh q hq
    rw [ServerState.decoder, hrequests, List.find?_append, hnone, h.books.decoder]
    simp [waitQuery]

theorem closeInstance_finishes (h : d.Ready none returned)
    (hdummy : ∀ (id : ℕ) (c : Cursor V), d.cursors[id]? = some c →
      ∃ m, c.jsonDecoder d.numbering.dummyResponse = .ok m) (noreplyWait : Bool)
    (hanswers : noreplyWait = true →
      Answers d.jsonDecoder d.nextToken d.io.env d.io.incoming.length) :
    wp (closeInstance noreplyWait d.nextToken) (fun o d' => o = .ok () ∧ Finished noreplyWait d d')
      { d with nextToken := 0 } := by
  have hdiscardable := h.discardable hdummy
  have hids : ∀ id ∈ d.cachedCursors, True ∧ id < d.cursors.length := by
    intro id hid
    obtain ⟨token, hlookup⟩ := mem_cachedCursors.mp hid
    obtain ⟨c, hc, -⟩ := (h.books.cache token id).mp hlookup
    exact ⟨trivial, (List.getElem?_eq_some_iff.mp hc).1⟩
  have hdone : ∀ (id : ℕ) (c : Cursor V), d.cursors[id]? = some c → id ∉ d.cachedCursors →
      ∃ e, c.error = some e := by
    intro id c hc hnot
    by_contra hopen
    have herr : c.error = none := by
      rw [← Option.not_isSome_iff_eq_none, Option.isSome_iff_exists]
      exact hopen
    exact hnot (mem_cachedCursors.mpr ⟨_, (h.books.cache _ _).mpr ⟨c, hc, rfl, .inl herr⟩⟩)
  let d₀ : Driver (conformingServer default Message.Explained) :=
    { d with nextToken := 0, closing := true }
  unfold closeInstance
  rw [wp_bind, wp_modify, bindPost_ok, wp_bind, wp_read, bindPost_ok, wp_bind]
  refine (forEach_discards (d := d₀) d.cachedCursors hids
    ⟨hdiscardable.cached, hdiscardable.distinct, hdiscardable.dummy⟩).mono ?_
  rintro o d₁ ⟨rfl, cursors, cache, rfl, hlength, hall⟩
  have hcursors : ∀ (id : ℕ) (c : Cursor V), d.cursors[id]? = some c →
      ∃ c', cursors[id]? = some c' ∧ c.Discarded "Connection is closed." c' := by
    intro id c hc
    obtain ⟨c', hc', hrest⟩ := hall id c hc
    refine ⟨c', hc', ?_⟩
    split_ifs at hrest with hmem
    · exact hrest
    · obtain ⟨e, he⟩ := hdone id c hc hmem
      rw [hrest]
      exact ⟨rfl, rfl, rfl, by rw [he]; rfl⟩
  rw [bindPost_ok, wp_bind, wp_modify, bindPost_ok, wp_ensure, wp_ite]
  refine ⟨fun hwait => ?_, fun hnowait => ?_⟩
  · obtain ⟨fs, ⟨done, hframes, -⟩, hflight⟩ := h.position.position
    have hflight := hflight h.up.isOpen
    obtain ⟨htold, hasked, hdecoder⟩ := h.owes
    have hanswered : (d.state.receive d.waitQuery).answers = done ++ fs :=
      (ServerState.receive_answers _ _).trans hframes
    obtain ⟨before, after, own, m, hbefore, hown, hdec, hcomplete, hbytes, hstock⟩ :=
      (hanswers hwait).found hanswered htold hasked hdecoder
    have hserialize : ∃ message, d.waitQuery.serialize = .ok message := by
      have hlen := d.numbering.queryJson_length .noreplyWait
      have hlt := own.token_lt
      have hnonneg := h.books.tokens.1
      exact ⟨_, if_pos ⟨hnonneg, by show d.nextToken < 2 ^ 64; omega, hlen⟩⟩
    obtain ⟨message, hserialize⟩ := hserialize
    have hheader := congrArg List.length hflight.bytes
    rw [List.length_append] at hheader
    unfold termless
    rw [wp_bind, wp_bind, wp_read, bindPost_ok, wp_pure, bindPost_ok]
    let d₂ : List SendOutcome → Bytes → Driver (conformingServer default Message.Explained) :=
      fun sends sent => { d₀ with
        cursors, cursorCache := ∅
        io := { d.io with sends, sent, peer := d.state.receive d.waitQuery } }
    have hinbound : ∀ sends sent, (d₂ sends sent).Inbound (before ++ own :: after) := by
      intro sends sent
      refine ⟨h.up.isOpen, hflight.buffer, h.position.soft, hflight.header, ?_⟩
      rw [← hbytes, ← hflight.bytes, List.append_assoc]
      rfl
    have hroom : ∀ sends sent, (encodeFrames (before ++ [own])).length ≤ (d₂ sends sent).stock := by
      intro sends sent
      have hsame : (d₂ sends sent).stock =
          (d.headerInProgress.getD []).length + Transport.supplied (P := conformingServer default
            Message.Explained) d.io.env (d.state.receive d.waitQuery) d.io.incoming.length := rfl
      rw [hsame]
      omega
    refine (runDetached_waits (d := { d₀ with cursors, cursorCache := ∅ }) h.up.isOpen h.up.sends
      hserialize rfl rfl hbefore hown hdec hcomplete hinbound hroom).mono ?_
    rintro o d' ⟨rfl, io, rfl⟩
    exact ⟨rfl, rfl, rfl, rfl, rfl, hlength, hcursors, fun hno => by simp [hwait] at hno,
      fun _ => ⟨before, own, m, rfl, hbefore, hown, hdec, hcomplete⟩⟩
  · rw [wp_pure]
    refine ⟨rfl, rfl, rfl, rfl, rfl, hlength, hcursors, fun _ => rfl, fun hwait => absurd hwait hnowait⟩

end Closing
end Driver
end RethinkDB.Net
