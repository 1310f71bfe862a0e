import RethinkDB.Net.Closing
import RethinkDB.Net.Decoding

/-! Cursors whose instance has been closed: no frame and no call on anything else reaches them, and
their own `next` reaches no socket. -/
namespace RethinkDB.Net
open RethinkDB.Lib Prog

variable {V : Type} {P : Peer V}

namespace Driver

/-- Cursor `id` is `c`, and no frame is for it. -/
structure Apart (id : ℕ) (c : Cursor V) (d : Driver P) : Prop where
  cursor : d.cursors[id]? = some c
  uncached : ∀ token, d.cursorCache.lookup token ≠ some id

abbrev Spares (id : ℕ) (c : Cursor V) {α : Type} (m : Call P α) : Prop :=
  Maintains (Apart id c) (Apart id c) m

def Other (id j : ℕ) : Prop := j ≠ id

section Spares
variable {id : ℕ} {c : Cursor V} {d d' : Driver P} {α β : Type}

theorem Apart.leaves (h : Apart id c d) (hleaves : Leaves (Other id) d d') : Apart id c d' where
  cursor := hleaves.others id c (fun hne => hne rfl) h.cursor
  uncached := by
    intro token hid
    rcases hleaves.cache token id hid with hold | ⟨hlt, -⟩
    · exact h.uncached token hold
    · have := (List.getElem?_eq_some_iff.mp h.cursor).1
      omega

theorem spares_of_leaves {m : Call P α} (hm : Respects (Leaves (Other id)) m) : Spares id c m :=
  hm.maintains fun _ _ hleaves h => h.leaves hleaves

/-- Whatever comes of a call, the cursor is still apart. -/
theorem Spares.wp {m : Call P α} (hm : Spares id c m) (h : Apart id c d) :
    Prog.wp m (fun _ d' => Apart id c d') d := by
  refine (hm d h).mono ?_
  rintro o d' ⟨hrun, hover⟩
  by_cases ho : o = .running
  · exact hrun ho
  · exact hover ho

theorem spares_of_wp {m : Call P α} (hm : ∀ d, Apart id c d → Prog.wp m (fun _ d' => Apart id c d') d) :
    Spares id c m := fun d h => (hm d h).mono fun _ _ h' => ⟨fun _ => h', fun _ => h'⟩

theorem forEach_spares (ids : List ℕ) (hids : id ∉ ids) (message : String) :
    Spares id c (forEach (cursorError message) ids : Call P Unit) := by
  induction ids with
  | nil => exact maintains_pure ()
  | cons id' ids ih =>
    have hne : Other id id' := fun heq => hids (heq ▸ List.mem_cons_self)
    exact (spares_of_leaves (cursorError_leaves hne message)).bind fun _ =>
      ih fun hmem => hids (List.mem_cons_of_mem _ hmem)

/-- A close goes through the cursors in the cache. -/
theorem cachedCursors_spares (message : String) {f : Unit → Call P α} (hf : ∀ u, Spares id c (f u)) :
    Spares id c (read cachedCursors >>= fun ids => forEach (cursorError message) ids >>= f) := by
  refine spares_of_wp fun d h => ?_
  rw [wp_bind, wp_read, bindPost_ok]
  refine Spares.wp ((forEach_spares _ ?_ message).bind hf) h
  intro hmem
  obtain ⟨token, hlookup⟩ := mem_cachedCursors.mp hmem
  exact h.uncached token hlookup

theorem emptied_spares (f : Driver P → Driver P)
    (hf : ∀ d, (f d).cursors = d.cursors ∧ (f d).cursorCache = ∅) :
    Spares id c (modify f : Call P Unit) := by
  refine spares_of_wp fun d h => ?_
  rw [wp_modify]
  refine ⟨by rw [(hf d).1]; exact h.cursor, fun token => ?_⟩
  rw [(hf d).2, AList.lookup_empty]
  exact nofun

theorem closing_spares : Spares id c (modify fun d => { d with closing := true } : Call P Unit) :=
  spares_of_wp fun _ h => ⟨h.cursor, h.uncached⟩

theorem close_spares : Spares id c (close : Call P Unit) :=
  closing_spares.bind fun _ => cachedCursors_spares _ fun _ => emptied_spares _ fun _ => ⟨rfl, rfl⟩

theorem readFrame_spares (deadline : Option ℤ) : Spares id c (readFrame deadline : Call P (ℤ × Bytes)) :=
  spares_of_wp fun d h => (readFrame_leaves deadline d).mono fun _ _ hpost => h.leaves hpost.1

theorem hand_spares (token : ℤ) (resBuf : Bytes) (recipient : Recipient) :
    Spares id c (hand token resBuf recipient : Call P Unit) :=
  spares_of_wp fun _ h => ⟨h.cursor, h.uncached⟩

/-- The induction is on the turns left. A frame is only handed to a cursor in the cache. -/
theorem readLoop_spares (query : Query V) (deadline : Option ℤ) (n : ℕ) :
    Spares id c (readLoop query deadline n : Call P (Option (Response V))) := by
  induction n with
  | zero => exact spares_of_wp fun _ h => h
  | succ n ih =>
    unfold readLoop
    refine (readFrame_spares deadline).bind fun frame => spares_of_wp fun d h => ?_
    rw [wp_bind, wp_read, bindPost_ok]
    cases hlookup : d.cursorCache.lookup frame.1 with
    | some id' =>
      have hne : Other id id' := by
        rintro rfl
        exact h.uncached _ hlookup
      have hextend : Spares id c (extend id' frame.2 : Call P Unit) :=
        spares_of_leaves (extend_leaves hne frame.2)
      refine Spares.wp ?_ h
      exact (hand_spares _ _ _).bind fun _ => hextend.bind fun _ => .ite (maintains_pure _) ih
    | none =>
      refine Spares.wp ?_ h
      refine .ite ((hand_spares _ _ _).bind fun _ => (maintains_read _).bind fun _ =>
        (maintains_ofExcept _).bind fun _ => maintains_pure _) ?_
      exact (hand_spares _ _ _).bind fun _ => (maintains_read _).bind fun _ =>
        .ite ih (close_spares.bind fun _ => maintains_throw _)

theorem readResponse_spares (query : Query V) (deadline : Option ℤ) :
    Spares id c (readResponse query deadline : Call P (Option (Response V))) :=
  (maintains_read _).bind fun _ => readLoop_spares query deadline _

/-- A new cursor goes to a place of its own. -/
theorem register_spares (query : Query V) : Spares id c (modify (register query) : Call P Unit) :=
  spares_of_leaves (respects_modify fun d => register_leaves query d)

/-- The place the next cursor goes to. -/
theorem opening_spares {f : ℕ → Call P α} (hf : ∀ id', Other id id' → Spares id c (f id')) :
    Spares id c (read (fun d => d.cursors.length) >>= f) := by
  refine spares_of_wp fun d h => ?_
  have hne : Other id d.cursors.length := by
    have := (List.getElem?_eq_some_iff.mp h.cursor).1
    unfold Other
    omega
  rw [wp_bind, wp_read, bindPost_ok]
  exact (hf _ hne).wp h

theorem newCursor_spares (query : Query V) (first : Response V) :
    Spares id c (newCursor query first : Call P ℕ) :=
  opening_spares fun _ hne => (register_spares query).bind fun _ =>
    (spares_of_leaves (maybeFetchBatch_leaves hne)).bind fun _ =>
      (spares_of_leaves (extendInternal_leaves hne first)).bind fun _ => maintains_pure _

theorem replyTo_spares (query : Query V) (res : Response V) :
    Spares id c (replyTo query res : Call P (Reply V)) := by
  unfold replyTo
  split
  · exact (maintains_ofExcept _).bind fun _ => maintains_pure _
  · exact (newCursor_spares _ _).bind fun _ => maintains_pure _
  · exact (newCursor_spares _ _).bind fun _ => maintains_pure _
  · exact maintains_pure _
  · exact (maintains_ofExcept _).bind fun _ => maintains_pure _
  · exact (maintains_ofExcept _).bind fun _ => maintains_throw _

theorem runQuery_spares (query : Query V) (noreply : Bool) :
    Spares id c (runQuery query noreply : Call P (Reply V)) := by
  refine (spares_of_leaves (sendQuery_leaves query)).bind fun _ =>
    .ite (maintains_pure _) ((readResponse_spares query none).bind fun res => ?_)
  cases res with
  | some res => exact replyTo_spares query res
  | none => exact maintains_throw _

theorem control_spares (type : QueryType) : Spares id c (control type : Call P (Reply V)) :=
  (spares_of_leaves checkOpen_leaves).bind fun _ => (spares_of_leaves newToken_leaves).bind fun _ =>
    (spares_of_leaves (termless_leaves _ _)).bind fun _ => runQuery_spares _ false

theorem start_spares (term : Option V) (body : Except String Bytes) (jsonDecoder : Option (Decoder V))
    (noreply : Bool) : Spares id c (start term body jsonDecoder noreply : Call P (Reply V)) :=
  (spares_of_leaves checkOpen_leaves).bind fun _ => (spares_of_leaves newToken_leaves).bind fun _ =>
    runQuery_spares _ noreply

theorem time_leaves {p : ℕ → Prop} : Respects (Leaves p) (time : Call P ℤ) :=
  fun _ => ⟨by simp [time, socket, zoom], leaves_of_same rfl rfl rfl⟩

/-- The induction is on the turns left. -/
theorem nextLoop_spares {id' : ℕ} (hne : Other id id') (deadline : Option ℤ) (n : ℕ) :
    Spares id c (nextLoop id' deadline n : Call P V) := by
  induction n with
  | zero => exact spares_of_wp fun _ h => h
  | succ n ih =>
    unfold nextLoop
    refine (spares_of_leaves (cursor_leaves id')).bind fun k => ?_
    cases k.items with
    | cons v vs =>
      exact (spares_of_leaves (modifyCursor_leaves (f := fun c => { c with items := vs }) hne
        fun _ => ⟨rfl, rfl⟩)).bind fun _ => maintains_pure _
    | nil =>
      refine (spares_of_leaves (maybeFetchBatch_leaves hne)).bind fun _ =>
        (spares_of_leaves (cursor_leaves id')).bind fun k' => ?_
      cases k'.error with
      | some e => exact maintains_throw _
      | none => exact (readResponse_spares _ deadline).bind fun _ => ih

theorem next_spares {id' : ℕ} (hne : Other id id') (wait : Wait) :
    Spares id c (next id' wait : Call P V) := by
  refine (maintains_ofExcept _).bind fun timeout => ?_
  cases timeout with
  | none => exact (maintains_read _).bind fun _ => nextLoop_spares hne none _
  | some t =>
    exact (spares_of_leaves time_leaves).bind fun now => (maintains_read _).bind fun _ =>
      nextLoop_spares hne _ _

theorem cursorClose_spares {id' : ℕ} (hne : Other id id') : Spares id c (cursorClose id' : Call P Unit) :=
  spares_of_leaves ((cursor_leaves id').bind fun _ => .ite
    ((modifyCursor_leaves (f := Cursor.fail .cursorEmpty) hne fun _ => ⟨rfl, rfl⟩).bind fun _ =>
      (respects_read _).bind fun _ => .ite
        ((modifyCursor_leaves (f := Cursor.request) hne fun _ => ⟨rfl, rfl⟩).bind fun _ =>
          cursorRequest_leaves _ id') (respects_pure _)) (respects_pure _))

theorem runDetached_spares (query : Query V) : Spares id c (runDetached query : Call P Unit) := by
  have hbatch : Spares id c (read (fun d => d.cursors.length) >>= fun id' => modify (register query) >>=
      fun _ => modifyCursor id' Cursor.request >>= fun _ => throw (.driver "Connection is closed.") :
        Call P Unit) :=
    opening_spares fun _ hne => (register_spares query).bind fun _ =>
      (spares_of_leaves (modifyCursor_leaves (f := Cursor.request) hne fun _ => ⟨rfl, rfl⟩)).bind
        fun _ => maintains_throw _
  refine (spares_of_leaves (sendQuery_leaves query)).bind fun _ =>
    (readResponse_spares query none).bind fun res => ?_
  cases res with
  | none => exact maintains_throw _
  | some res =>
    dsimp only
    split
    · exact (maintains_ofExcept _).bind fun _ => maintains_pure _
    · exact (maintains_ofExcept _).bind fun _ => maintains_pure _
    · exact hbatch
    · exact hbatch
    · exact maintains_pure _
    · exact (maintains_ofExcept _).bind fun _ => maintains_throw _

theorem closeInstance_spares (noreplyWait : Bool) (token : ℤ) :
    Spares id c (closeInstance noreplyWait token : Call P Unit) := by
  refine closing_spares.bind fun _ => cachedCursors_spares _ fun _ =>
    (emptied_spares (fun d => { d with cursorCache := ∅ }) fun _ => ⟨rfl, rfl⟩).bind fun _ =>
      spares_of_wp fun d h => ?_
  have hwait : Spares id c (if noreplyWait = true then
      termless .noreplyWait token >>= runDetached else pure () : Call P Unit) :=
    .ite ((spares_of_leaves (termless_leaves _ _)).bind fun _ => runDetached_spares _) (maintains_pure _)
  rw [wp_ensure]
  refine (Spares.wp hwait h).mono fun o d' h' => ?_
  split
  · exact h'
  · exact ⟨h'.cursor, h'.uncached⟩

end Spares
end Driver

def Cursor.after (n : ℕ) (c : Cursor V) : Cursor V := { c with items := c.items.drop n }

theorem Cursor.after_after (c : Cursor V) (m n : ℕ) : (c.after m).after n = c.after (m + n) := by
  simp [after, List.drop_drop]

theorem Cursor.after_nil {c : Cursor V} (h : c.items = []) (n : ℕ) : c.after n = c := by
  rw [after, h, List.drop_nil, ← h]

namespace Connection
open Driver (Wait waitToTimeout Apart Other Spares)

/-- What a program may do with a connection it has closed, and with the cursors it got from it. -/
inductive Later (P : Peer V) where
  | perform (op : Op V)
  | close (noreplyWait : Bool)
  | reconnect (noreplyWait : Bool) (attempt : Except ConnectFailure (Transport P))

def Later.call : Later P → Action P (Reply V)
  | .perform op => Connection.perform op
  | .close noreplyWait => do
    Connection.close noreplyWait
    return .none
  | .reconnect noreplyWait attempt => do
    Connection.reconnect noreplyWait attempt
    return .none

/-- The `wait`s `next` takes. -/
def Accepted : Wait → Prop
  | .bool _ => True
  | .real t => 0 ≤ t
  | .other _ => False

instance : DecidablePred Accepted := fun wait => by
  cases wait <;> unfold Accepted <;> infer_instance

/-- The call is a `next` of cursor `id`. -/
def Later.Takes (id : ℕ) : Later P → Prop
  | .perform (.next id' wait) => id' = id ∧ Accepted wait
  | _ => False

instance (id : ℕ) : DecidablePred (Later.Takes (P := P) id) := fun later => by
  unfold Later.Takes
  split <;> infer_instance

theorem waitToTimeout_accepted {wait : Wait} (h : Accepted wait) :
    ∃ timeout, (waitToTimeout wait : Except (Exn V) (Option ℤ)) = .ok timeout := by
  cases wait with
  | bool b => exact ⟨_, rfl⟩
  | real t => exact ⟨_, if_pos h⟩
  | other text => exact h.elim

theorem waitToTimeout_refused {wait : Wait} (h : ¬Accepted wait) :
    ∃ e, (waitToTimeout wait : Except (Exn V) (Option ℤ)) = .error e := by
  cases wait with
  | bool b => exact absurd trivial h
  | real t => exact ⟨_, if_neg h⟩
  | other text => exact ⟨_, rfl⟩

/-- Cursor `id` is `k`, and its instance has been let go of. -/
structure Retired (id : ℕ) (k : Cursor V) (c : Connection P) : Prop where
  apart : Apart id k c.driver
  former : id < c.former

/-- The call leaves such a cursor alone. -/
abbrev Keeps (id : ℕ) (k : Cursor V) {α : Type} (m : Action P α) : Prop :=
  Maintains (Retired id k) (Retired id k) m

section Keeps
variable {id : ℕ} {k : Cursor V} {α : Type}

theorem keeps_of_spares {m : Call P α} (hm : Spares id k m) : Keeps id k (onDriver m) := by
  intro c h
  rw [onDriver, wp_zoom]
  exact (hm.wp h.apart).mono fun _ _ h' => ⟨fun _ => ⟨h', h.former⟩, fun _ => ⟨h', h.former⟩⟩

theorem keeps_modify {f : Connection P → Connection P} (hf : ∀ c, Retired id k c → Retired id k (f c)) :
    Keeps id k (modify f) := by
  intro c h
  rw [wp_modify]
  exact ⟨nofun, fun _ => hf c h⟩

theorem checkOpen_keeps : Keeps id k (checkOpen : Action P Unit) := by
  refine (maintains_read _).bind fun stage => ?_
  cases stage with
  | none => exact maintains_throw _
  | unconnected => exact maintains_throw _
  | connected => exact keeps_of_spares (Driver.spares_of_leaves Driver.checkOpen_leaves)

theorem letGo_keeps : Keeps id k (modify letGo : Action P Unit) :=
  keeps_modify fun _ h => ⟨⟨h.apart.cursor, h.apart.uncached⟩,
    (List.getElem?_eq_some_iff.mp h.apart.cursor).1⟩

theorem close_keeps (noreplyWait : Bool) : Keeps id k (close noreplyWait : Action P Unit) := by
  refine (maintains_read _).bind fun stage => ?_
  cases stage with
  | none => exact maintains_pure _
  | unconnected => exact letGo_keeps.bind fun _ => maintains_throw _
  | connected =>
    exact (keeps_of_spares (Driver.spares_of_leaves Driver.newToken_leaves)).bind fun token =>
      letGo_keeps.bind fun _ => keeps_of_spares (Driver.closeInstance_spares noreplyWait token)

theorem renew_keeps : Keeps id k (modify renew : Action P Unit) :=
  keeps_modify fun _ h => ⟨⟨h.apart.cursor, nofun⟩, (List.getElem?_eq_some_iff.mp h.apart.cursor).1⟩

theorem connect_keeps (attempt : Except ConnectFailure (Transport P)) :
    Keeps id k (connect attempt : Action P Unit) := by
  cases attempt with
  | ok io => exact keeps_modify fun _ h => ⟨⟨h.apart.cursor, h.apart.uncached⟩, h.former⟩
  | error failure => exact (maintains_read _).bind fun _ => maintains_throw _

theorem reconnect_keeps (noreplyWait : Bool) (attempt : Except ConnectFailure (Transport P)) :
    Keeps id k (reconnect noreplyWait attempt : Action P Unit) :=
  (close_keeps noreplyWait).bind fun _ => renew_keeps.bind fun _ => connect_keeps attempt

theorem formerFetch_keeps {id' : ℕ} (hne : Other id id') :
    Keeps id k (formerFetch id' : Action P Unit) :=
  (keeps_of_spares (Driver.spares_of_leaves (Driver.cursor_leaves id'))).bind fun _ => .ite
    ((keeps_of_spares (Driver.spares_of_leaves
      (Driver.modifyCursor_leaves (f := Cursor.request) hne fun _ => ⟨rfl, rfl⟩))).bind fun _ =>
        checkOpen_keeps.bind fun _ => keeps_of_spares
          (Driver.spares_of_leaves (Driver.cursorRequest_leaves _ _))) (maintains_pure _)

theorem formerTurn_keeps {id' : ℕ} (hne : Other id id') :
    Keeps id k (formerTurn id' : Action P V) := by
  have hcursor : Keeps id k (onDriver (Driver.cursor id') : Action P (Cursor V)) :=
    keeps_of_spares (Driver.spares_of_leaves (Driver.cursor_leaves id'))
  refine hcursor.bind fun c => ?_
  cases c.items with
  | cons v vs =>
    exact (keeps_of_spares (Driver.spares_of_leaves (Driver.modifyCursor_leaves
      (f := fun c => { c with items := vs }) hne fun _ => ⟨rfl, rfl⟩))).bind fun _ => maintains_pure _
  | nil =>
    refine (formerFetch_keeps hne).bind fun _ => hcursor.bind fun c' => ?_
    cases c'.error with
    | some e => exact maintains_throw _
    | none => exact maintains_throw _

theorem formerGetNext_keeps {id' : ℕ} (hne : Other id id') (timeout : Option ℤ) :
    Keeps id k (formerGetNext id' timeout : Action P V) := by
  cases timeout with
  | none => exact formerTurn_keeps hne
  | some t =>
    exact (keeps_of_spares (Driver.spares_of_leaves Driver.time_leaves)).bind fun _ =>
      formerTurn_keeps hne

theorem next_keeps {id' : ℕ} (hne : Other id id') (wait : Wait) :
    Keeps id k (next id' wait : Action P V) :=
  (maintains_read _).bind fun _ => .ite
    ((maintains_ofExcept _).bind fun timeout => formerGetNext_keeps hne timeout)
    (keeps_of_spares (Driver.next_spares hne wait))

theorem cursorClose_keeps {id' : ℕ} (hne : Other id id') :
    Keeps id k (cursorClose id' : Action P Unit) :=
  (maintains_read _).bind fun _ => .ite
    ((keeps_of_spares (Driver.spares_of_leaves (Driver.cursor_leaves id'))).bind fun _ => .ite
      (keeps_of_spares (Driver.spares_of_leaves (Driver.modifyCursor_leaves
        (f := Cursor.fail .cursorEmpty) hne fun _ => ⟨rfl, rfl⟩))) (maintains_pure _))
    (keeps_of_spares (Driver.cursorClose_spares hne))

/-- A finished cursor is not closed again. -/
theorem cursorClose_finished {e : Exn V} (he : k.error = some e) :
    Keeps id k (cursorClose id : Action P Unit) := by
  intro c h
  unfold cursorClose
  rw [wp_bind, wp_read, bindPost_ok, if_pos h.former, wp_bind, onDriver, wp_zoom]
  have hcursor : Driver.cursor id c.driver = (.ok k, c.driver) := by
    unfold Driver.cursor
    rw [h.apart.cursor]
  rw [wp_of_eq hcursor, bindPost_ok, if_neg (by simp [he]), wp_pure]
  exact ⟨nofun, fun _ => h⟩

/-- All that has changed is a cursor, and that the clock was read. -/
def Undisturbed (c c' : Connection P) : Prop :=
  ∃ cursors ticks, c' = { c with driver := { c.driver with
    cursors, io := { c.driver.io with ticks } } }

/-- What a finished cursor has for its `next`: an item, or else its error. -/
def nextOf (k : Cursor V) (e : Exn V) : Outcome (Exn V) V :=
  match k.items with
  | v :: _ => .ok v
  | [] => .error e

theorem formerTurn_finished {c : Connection P} (h : Retired id k c) {e : Exn V} (he : k.error = some e) :
    wp (formerTurn id) (fun o c' => o = nextOf k e ∧ Retired id (k.after 1) c' ∧
      ∃ cursors, c' = { c with driver := { c.driver with cursors } }) c := by
  have hlt : id < c.driver.cursors.length := (List.getElem?_eq_some_iff.mp h.apart.cursor).1
  have hcursor : onDriver (Driver.cursor id) c = (.ok k, c) := by
    unfold onDriver zoom Driver.cursor
    rw [h.apart.cursor]
  unfold formerTurn nextOf
  rw [wp_bind_of_eq hcursor]
  cases hitems : k.items with
  | cons v vs =>
    rw [wp_bind, onDriver, wp_zoom, Driver.modifyCursor_of h.apart.cursor, bindPost_ok, wp_pure]
    exact ⟨rfl, ⟨⟨by simp [hlt, Cursor.after, hitems], h.apart.uncached⟩, h.former⟩, _, rfl⟩
  | nil =>
    have hwants : ¬k.WantsBatch := by
      intro hwants
      have := hwants.1
      simp [he] at this
    dsimp only
    unfold formerFetch
    rw [Cursor.after_nil hitems, wp_bind, wp_bind_of_eq hcursor, if_neg hwants, wp_pure, bindPost_ok,
      wp_bind_of_eq hcursor, he]
    exact ⟨rfl, h, _, rfl⟩

/-- `next` gives out the items of a finished cursor, then raises its error. -/
theorem next_finished {c : Connection P} (h : Retired id k c) {e : Exn V} (he : k.error = some e)
    {wait : Wait} (hwait : Accepted wait) :
    wp (next id wait) (fun o c' => o = nextOf k e ∧ Retired id (k.after 1) c' ∧
      Undisturbed c c') c := by
  obtain ⟨timeout, htimeout⟩ := waitToTimeout_accepted (V := V) hwait
  unfold next
  rw [wp_bind, wp_read, bindPost_ok, if_pos h.former, wp_ofExcept_bind_ok htimeout]
  cases timeout with
  | none =>
    refine (formerTurn_finished h he).mono ?_
    rintro o c' ⟨ho, hretired, cursors, rfl⟩
    exact ⟨ho, hretired, cursors, c.driver.io.ticks, rfl⟩
  | some t =>
    have htime : onDriver Driver.time c = (.ok c.driver.io.now.1, { c with driver :=
        { c.driver with io := c.driver.io.now.2 } }) := rfl
    unfold formerGetNext
    rw [wp_bind_of_eq htime]
    have hretired : Retired id k { c with driver := { c.driver with io := c.driver.io.now.2 } } :=
      ⟨⟨h.apart.cursor, h.apart.uncached⟩, h.former⟩
    refine (formerTurn_finished hretired he).mono ?_
    rintro o c' ⟨ho, hretired, cursors, rfl⟩
    exact ⟨ho, hretired, cursors, c.driver.io.ticks + 1, rfl⟩

theorem next_refused {wait : Wait} (hwait : ¬Accepted wait) : Keeps id k (next id wait : Action P V) := by
  obtain ⟨e, he⟩ := waitToTimeout_refused (V := V) hwait
  refine (maintains_read _).bind fun _ => .ite ?_ (keeps_of_spares ?_)
  · rw [he]
    exact maintains_throw e
  · unfold Driver.next
    rw [he]
    exact maintains_throw e

/-- The induction is on the calls. -/
theorem later_keeps {e : Exn V} (he : k.error = some e) {later : Later P} (hother : ¬later.Takes id) :
    Keeps id k (later.call : Action P (Reply V)) := by
  cases later with
  | close noreplyWait => exact (close_keeps noreplyWait).bind fun _ => maintains_pure _
  | reconnect noreplyWait attempt =>
    exact (reconnect_keeps noreplyWait attempt).bind fun _ => maintains_pure _
  | perform op =>
    cases op with
    | run term body jsonDecoder noreply =>
      exact checkOpen_keeps.bind fun _ => keeps_of_spares
        (Driver.start_spares term body jsonDecoder noreply)
    | noreplyWait => exact checkOpen_keeps.bind fun _ => keeps_of_spares (Driver.control_spares _)
    | server => exact checkOpen_keeps.bind fun _ => keeps_of_spares (Driver.control_spares _)
    | next id' wait =>
      refine Maintains.bind ?_ fun _ => maintains_pure _
      by_cases hid : id' = id
      · subst hid
        exact next_refused fun hwait => hother ⟨rfl, hwait⟩
      · exact next_keeps hid wait
    | close id' =>
      refine Maintains.bind ?_ fun _ => maintains_pure _
      by_cases hid : id' = id
      · subst hid
        exact cursorClose_finished he
      · exact cursorClose_keeps hid

/-- The `next`s among any calls take its items off the cursor one by one. The induction is on the
calls. -/
theorem session_retired {e : Exn V} (he : k.error = some e) (later : List (Later P)) {c : Connection P}
    (h : Retired id k c) (hover : .running ∉ (session (later.map Later.call) c).1) :
    Retired id (k.after (later.countP (·.Takes id)))
      (session (later.map Later.call) c).2 := by
  induction later generalizing k c with
  | nil => exact h
  | cons first later ih =>
    have hstep : wp first.call (fun o c' => o ≠ .running →
        Retired id (k.after (if first.Takes id then 1 else 0)) c') c := by
      split_ifs with htakes
      · cases first with
        | close noreplyWait => exact htakes.elim
        | reconnect noreplyWait attempt => exact htakes.elim
        | perform op =>
          cases op with
          | next id' wait =>
            obtain ⟨rfl, hwait⟩ := htakes
            unfold Later.call perform
            rw [wp_bind]
            refine (next_finished h he hwait).mono ?_
            rintro (v | e' | _) c' ⟨-, hretired, -⟩
            · exact fun _ => hretired
            · exact fun _ => hretired
            · exact fun _ => hretired
          | _ => exact htakes.elim
      · exact (later_keeps he htakes c h).mono fun o c' hpost ho => hpost.2 ho
    rw [List.countP_cons]
    rw [List.map_cons] at hover ⊢
    obtain ⟨hfirst, hlater⟩ := running_notMem_session_cons.mp hover
    have hrest := ih (k := k.after (if first.Takes id then 1 else 0)) he (hstep hfirst) hlater
    rw [session_over hfirst, Nat.add_comm, ← Cursor.after_after]
    simpa using hrest

end Keeps

/-! ### Closing, and ever after -/

section Theorem
variable {default : Decoder V}

/-- A `Connection` whose first instance has just connected. -/
structure Opened (c : Connection (conformingServer default Message.Explained)) : Prop where
  stage : c.stage = .connected
  former : c.former = 0
  fresh : c.driver.Fresh
  soft : (∀ e ∈ c.driver.io.env, e.Soft) ∧ ∀ o ∈ c.driver.io.sends, o.Soft

theorem onDriver_bind {α β : Type} (m : Call P α) (f : α → Call P β) :
    onDriver (m >>= f) = onDriver m >>= fun a => onDriver (f a) := by
  funext c
  have hbind : (m >>= f) c.driver = Prog.after f (m c.driver) := rfl
  have hbind' : (onDriver m >>= fun a => onDriver (f a)) c =
      Prog.after (fun a => onDriver (f a)) ((m c.driver).1, { c with driver := (m c.driver).2 }) := rfl
  rw [hbind', onDriver, zoom, hbind]
  rcases m c.driver with ⟨a | e | _, d⟩ <;> rfl

/-- As long as nothing is closed, an operation is one on the instance. -/
theorem perform_connected {c : Connection P} (hstage : c.stage = .connected) (hformer : c.former = 0)
    (op : Op V) : perform op c = onDriver op.call c := by
  have hopen : ∀ {α : Type} (f : Unit → Call P α),
      (checkOpen >>= fun _ => onDriver (Driver.checkOpen >>= f)) c = onDriver (Driver.checkOpen >>= f) c := by
    intro α f
    have hcheck : checkOpen c = onDriver Driver.checkOpen c := by
      unfold checkOpen
      change Prog.after _ (Outcome.ok c.stage, c) = _
      rw [hstage]
      rfl
    have hdriver : Driver.checkOpen c.driver =
        if c.driver.io.isOpen then (.ok (), c.driver)
        else (.error (.driver "Connection is closed."), c.driver) := by
      unfold Driver.checkOpen
      change (if c.driver.io.isOpen = true then _ else _ : Call P Unit) c.driver = _
      split_ifs <;> rfl
    change Prog.after _ (checkOpen c) = _
    by_cases hio : c.driver.io.isOpen = true
    · rw [if_pos hio] at hdriver
      have hpassed : onDriver Driver.checkOpen c = (.ok (), c) := by rw [onDriver, zoom, hdriver]
      rw [hcheck, hpassed]
      rfl
    · rw [if_neg hio] at hdriver
      have hraised : onDriver Driver.checkOpen c = (.error (.driver "Connection is closed."), c) := by
        rw [onDriver, zoom, hdriver]
      rw [hcheck, onDriver_bind]
      change _ = Prog.after _ (onDriver Driver.checkOpen c)
      rw [hraised]
      rfl
  cases op with
  | run term body jsonDecoder noreply => exact hopen _
  | noreplyWait => exact hopen _
  | server => exact hopen _
  | next id wait =>
    have hnext : next id wait c = onDriver (Driver.next id wait) c := by
      unfold next
      change (if id < c.former then _ else onDriver (Driver.next id wait) : Action P V) c = _
      rw [hformer, if_neg (Nat.not_lt_zero id)]
    unfold perform Op.call
    rw [onDriver_bind]
    exact congrArg (Prog.after _) hnext
  | close id =>
    have hclose : cursorClose id c = onDriver (Driver.cursorClose id) c := by
      unfold cursorClose
      change (if id < c.former then _ else onDriver (Driver.cursorClose id) : Action P Unit) c = _
      rw [hformer, if_neg (Nat.not_lt_zero id)]
    unfold perform Op.call
    rw [onDriver_bind]
    exact congrArg (Prog.after _) hclose

theorem session_connected {c : Connection P} (hstage : c.stage = .connected) (hformer : c.former = 0)
    (ops : List (Op V)) : session (ops.map perform) c =
      ((session (ops.map Op.call) c.driver).1,
        { c with driver := (session (ops.map Op.call) c.driver).2 }) := by
  induction ops generalizing c with
  | nil => rfl
  | cons op ops ih =>
    rw [List.map_cons, List.map_cons, session, session, perform_connected hstage hformer, onDriver, zoom]
    rcases op.call c.driver with ⟨r | e | _, d⟩
    · dsimp only
      rw [ih (c := { c with driver := d }) hstage hformer]
    · dsimp only
      rw [ih (c := { c with driver := d }) hstage hformer]
    · rfl

/-- All that is to be said of a `close` of `c`. -/
structure Settles (noreplyWait : Bool) (c : Connection P) (o : Outcome (Exn V) Unit)
    (c' : Connection P) : Prop where
  returns : o = .ok ()
  stage : c'.stage = .none
  finished : Driver.Finished noreplyWait c.driver c'.driver
  /-- A `next`, whatever has been called since on the connection and on any cursor. -/
  later : ∀ (id : ℕ) (k : Cursor V), c.driver.cursors[id]? = some k → ∀ (later : List (Later P))
    (s : Connection P) (os : List (Outcome (Exn V) (Reply V))),
    session (later.map Later.call) c' = (os, s) → .running ∉ os → ∀ wait, Accepted wait →
      wp (next id wait) (fun o s' => Undisturbed s s' ∧
        o = nextOf (k.after (later.countP (·.Takes id)))
          (k.error.getD (.runtime "Connection is closed." k.query.term))) s

/-- Closing in every state a session reaches, whatever order the answers arrive in. -/
theorem close_settles (ops : List (Op V)) {c₀ c : Connection (conformingServer default Message.Explained)}
    {os : List (Outcome (Exn V) (Reply V))} (hopened : c₀.Opened)
    (hreached : session (ops.map perform) c₀ = (os, c)) (hover : .running ∉ os)
    (hdummy : ∀ k ∈ c.driver.cursors, ∃ m, k.jsonDecoder c.driver.numbering.dummyResponse = .ok m)
    (noreplyWait : Bool) (hanswers : noreplyWait = true → Driver.Answers default c.driver.nextToken
      c.driver.io.env c.driver.io.incoming.length) :
    wp (close noreplyWait) (Settles noreplyWait c) c := by
  rw [session_connected hopened.stage hopened.former, Prod.mk.injEq] at hreached
  obtain ⟨rfl, rfl⟩ := hreached
  have hready := (Driver.session_ready ops (hopened.fresh.ready hopened.soft.1 hopened.soft.2)).2.1 hover
  generalize (session (ops.map Op.call) c₀.driver).2 = d at hready hdummy hanswers ⊢
  have hdecoder : d.jsonDecoder = default := hready.books.decoder
  have hfinishes := Driver.closeInstance_finishes hready
    (fun id k hk => hdummy k (List.mem_of_getElem? hk)) noreplyWait (by rw [hdecoder]; exact hanswers)
  obtain ⟨driver, stage, host, port, former⟩ := c₀
  obtain ⟨hstage, -, -, -⟩ := hopened
  dsimp only at hstage
  subst hstage
  have htoken : onDriver Driver.newToken (⟨d, .connected, host, port, former⟩ : Connection _) =
      (.ok d.nextToken, ⟨{ d with nextToken := d.nextToken + 1 }, .connected, host, port, former⟩) := rfl
  unfold close
  rw [wp_bind, wp_read, bindPost_ok]
  dsimp only
  rw [wp_bind_of_eq htoken, wp_bind, wp_modify, bindPost_ok, onDriver, wp_zoom]
  refine hfinishes.mono ?_
  rintro o d' ⟨rfl, hfinished⟩
  show Settles noreplyWait _ (.ok ()) (⟨d', .none, host, port, d.cursors.length⟩ : Connection _)
  refine ⟨rfl, rfl, hfinished, ?_⟩
  intro id k hk later s os hsession hrun wait hwait
  obtain ⟨k', hk', hdiscarded⟩ := hfinished.cursors id k hk
  have hretired : Retired id k' (⟨d', .none, host, port, d.cursors.length⟩ : Connection _) := by
    refine ⟨⟨hk', ?_⟩, (List.getElem?_eq_some_iff.mp hk).1⟩
    rw [hfinished.cache]
    exact nofun
  have hafter := session_retired hdiscarded.error later hretired
  rw [hsession] at hafter
  have hitems : ∀ n e, nextOf (k'.after n) e = nextOf (k.after n) e := by
    intro n e
    rw [nextOf, nextOf, Cursor.after, Cursor.after, hdiscarded.items]
  refine (next_finished (hafter hrun) hdiscarded.error hwait).mono ?_
  rintro o s' ⟨ho, -, hquiet⟩
  rw [hitems] at ho
  exact ⟨hquiet, ho⟩

/-- The toy encoding with a fourth type, for `WAIT_COMPLETE`. -/
def waitDecoder : Decoder ℕ
  | 3 :: _ => .ok ⟨.waitComplete, [], none, none, none⟩
  | payload => Driver.byteDecoder payload

/-- A batch is read for a first query. The next one is still owed when the connection is closed, and
arrives before the answer to the `NOREPLY_WAIT`. -/
def closable : Connection (conformingServer waitDecoder Message.Explained) where
  driver :=
    { io :=
        { host := "localhost", port := 28015, isOpen := true, readBuffer := none, timeout := none
          incoming := []
          peer := ⟨[], []⟩
          env := [.peer (0, [0, 5]), .recv (.chunk 11), .recv (.chunk 11), .peer (0, [0, 6]),
            .peer (1, [3])] ++ List.replicate 27 (.recv (.chunk 11))
          sends := [], sent := [], clock := fun n => n, ticks := 0 }
      numbering := ⟨fun _ => [], nil_length_lt, [1]⟩
      nextToken := 0
      jsonDecoder := waitDecoder
      cursorCache := ∅
      headerInProgress := none
      closing := false
      cursors := []
      handed := [] }
  stage := .connected
  host := "localhost"
  port := 28015
  former := 0

theorem closable_opened : closable.Opened := by
  refine ⟨rfl, rfl, ⟨rfl, rfl, ⟨rfl, rfl, rfl⟩, rfl, rfl, rfl, ⟨rfl, rfl, rfl⟩⟩, ?_, nofun⟩
  intro e he
  rcases List.mem_append.mp he with he | he
  · simp only [List.mem_cons, List.not_mem_nil, or_false] at he
    rcases he with rfl | rfl | rfl | rfl | rfl <;> trivial
  · rw [List.eq_of_mem_replicate he]
    trivial

theorem close_settles_owed :
    wp (close true) (Settles true (session ([Op.run none (.ok []) none false].map perform) closable).2)
      (session ([Op.run none (.ok []) none false].map perform) closable).2 := by
  have hover : .running ∉ (session ([Op.run none (.ok []) none false].map perform) closable).1 := by
    decide +kernel
  have hdecoders : ((session ([Op.run none (.ok []) none false].map perform) closable).2.driver.cursors.map
      fun k => (k.jsonDecoder [1]).toBool) = [true] := by
    decide +kernel
  have hstate : (session ([Op.run none (.ok []) none false].map perform) closable).2.driver.nextToken = 1 ∧
      (session ([Op.run none (.ok []) none false].map perform) closable).2.driver.io.incoming = [] := by
    decide +kernel
  have henv : @Eq (List (Event (ℤ × Bytes)))
      (session ([Op.run none (.ok []) none false].map perform) closable).2.driver.io.env
      ([.peer (0, [0, 6]), .peer (1, [3])] ++ List.replicate 27 (.recv (.chunk 11))) := by
    rfl
  refine close_settles _ closable_opened rfl hover ?_ true fun _ => ?_
  · intro k hk
    have htrue : (k.jsonDecoder [1]).toBool = true := by
      have hmem := List.mem_map_of_mem (f := fun k : Cursor ℕ => (k.jsonDecoder [1]).toBool) hk
      rw [hdecoders] at hmem
      exact List.mem_singleton.mp hmem
    cases hdecode : k.jsonDecoder [1] with
    | ok m => exact ⟨m, hdecode⟩
    | error text =>
      rw [hdecode] at htrue
      cases htrue
  · rw [hstate.1, hstate.2]
    refine henv ▸ ⟨?_, ⟨⟨1, [3], by decide, by decide, by decide⟩, [.peer (0, [0, 6])],
      List.replicate 27 (.recv (.chunk 11)), rfl, rfl, ?_⟩⟩
    · intro payload hpayload
      have hmem : payload = [3] := by
        simpa [List.mem_replicate] using hpayload
      rw [hmem]
      exact ⟨_, rfl, rfl⟩
    · decide

end Theorem
end Connection
end RethinkDB.Net
