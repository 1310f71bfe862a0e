import RethinkDB.Import.Writer

/-! Recovery of `table_writer` from a batch insert that failed with part of the batch stored. -/
namespace RethinkDB.Import
open RethinkDB.Lib Prog

variable {V : Type} [DecidableEq V] {S : TableServer V} {primaryKey : String}

/-- A table, seen from outside: at most one row under a primary key. -/
abbrev Contents (V : Type) := V → Option (Row V)

def Contents.put (primaryKey : String) (T : Contents V) (row : Row V) : Contents V :=
  match row.lookup primaryKey with
  | some key => Function.update T key (some row)
  | none => T

/-- Every single-row operation succeeds and no one else writes: a read returns what is
stored, an insert that meets no conflict stores its row and counts it. -/
structure Reliable (S : TableServer V) (primaryKey : String) where
  contents : S.State → Contents V
  keyed : ∀ s key row, contents s key = some row → row.lookup primaryKey = some key
  get : ∀ s key, S.get key s = (.ok (contents s key), s)
  insert : ∀ s conflict row key, row.lookup primaryKey = some key →
    (conflict = .replace ∨ contents s key = none) →
    ∃ res s', S.insert conflict [row] s = (.ok res, s') ∧ res.errors = 0 ∧
      res.inserted + res.replaced + res.unchanged = 1 ∧
      contents s' = (contents s).put primaryKey row

/-- What is to hold of a batch once `table_writer` has dealt with it. -/
structure Recovered (R : Reliable S primaryKey) (batch : List (Row V)) (w w' : World S) : Prop where
  errorQueue : w'.errorQueue = w.errorQueue
  exitEvent : w'.exitEvent = w.exitEvent
  rowsWritten : w'.rowsWritten = w.rowsWritten + batch.length
  stored : ∀ row ∈ batch, ∀ key, row.lookup primaryKey = some key →
    R.contents w'.server key = some row

/-- When the recovery loop can succeed on the table it finds: in `error` mode it must find
none of the rows, nor any other row under their keys. -/
def Recoverable (primaryKey : String) (T : Contents V) (batch : List (Row V)) :
    ConflictAction → Prop
  | .replace => ∀ row ∈ batch, ∀ row' ∈ batch,
      row.lookup primaryKey = row'.lookup primaryKey → row = row'
  | .error => (∀ row ∈ batch, ∀ key, row.lookup primaryKey = some key → T key = none) ∧
      (batch.map (Finmap.lookup primaryKey)).Nodup

/-- All that storing rows may change. -/
structure Stores (R : Reliable S primaryKey) (rows : List (Row V)) (w w' : World S) : Prop where
  contents : R.contents w'.server = rows.foldl (Contents.put primaryKey) (R.contents w.server)
  rowsWritten : w'.rowsWritten = w.rowsWritten + rows.length
  queues : w'.errorQueue = w.errorQueue ∧ w'.exitEvent = w.exitEvent

theorem Stores.refl (R : Reliable S primaryKey) (w : World S) : Stores R [] w w :=
  ⟨rfl, rfl, rfl, rfl⟩

theorem Stores.trans {R : Reliable S primaryKey} {rows rows' : List (Row V)} {w w' w'' : World S}
    (h : Stores R rows w w') (h' : Stores R rows' w' w'') : Stores R (rows ++ rows') w w'' := by
  refine ⟨by rw [h'.contents, h.contents, List.foldl_append], ?_, h'.queues.1.trans h.queues.1,
    h'.queues.2.trans h.queues.2⟩
  rw [h'.rowsWritten, h.rowsWritten, List.length_append, Nat.add_assoc]

theorem Contents.foldl_put_other {rows : List (Row V)} {key : V}
    (hother : ∀ row ∈ rows, row.lookup primaryKey ≠ some key) (T : Contents V) :
    rows.foldl (put primaryKey) T key = T key := by
  induction rows generalizing T with
  | nil => rfl
  | cons row rows ih =>
    rw [List.foldl_cons, ih fun row hrow => hother row (by simp [hrow])]
    have hne := hother row (by simp)
    unfold put
    cases hkey : row.lookup primaryKey with
    | none => rfl
    | some key' => exact Function.update_of_ne (fun heq => hne (by rw [hkey, heq])) ..

/-- Rows that agree wherever their keys do are all there once they have been put. -/
theorem Contents.foldl_put {rows : List (Row V)}
    (hagree : ∀ row ∈ rows, ∀ row' ∈ rows,
      row.lookup primaryKey = row'.lookup primaryKey → row = row')
    (T : Contents V) {row : Row V} (hrow : row ∈ rows) {key : V}
    (hkey : row.lookup primaryKey = some key) :
    rows.foldl (put primaryKey) T key = some row := by
  induction rows generalizing T with
  | nil => simp at hrow
  | cons first rows ih =>
    rw [List.foldl_cons]
    by_cases hin : row ∈ rows
    · exact ih (fun r hr r' hr' => hagree r (by simp [hr]) r' (by simp [hr'])) _ hin
    · have hfirst : row = first := (List.mem_cons.mp hrow).resolve_right hin
      subst hfirst
      rw [foldl_put_other fun r hr heq => hin ?_]
      · simp [put, hkey]
      · rwa [hagree row (by simp) r (by simp [hr]) (hkey.trans heq.symm)]

namespace Writer

variable {W : Writer V} (R : Reliable S W.primaryKey)

/-- The insert of a row that meets no conflict passes the checks and is counted. -/
theorem insertRow_stores {row : Row V} {key : V} (hkey : row.lookup W.primaryKey = some key)
    {w : World S} (hfree : W.conflictAction = .replace ∨ R.contents w.server key = none) :
    wp (query (S.insert W.conflictAction [row])) (fun o w₁ => ∃ res, o = .ok res ∧
      wp (checkRow W (some res)) (fun o w' => o = .ok () ∧ Stores R [row] w w') w₁) w := by
  obtain ⟨res, s', hinsert, herrors, hone, hcontents⟩ :=
    R.insert w.server W.conflictAction row key hkey hfree
  rw [query, wp_zoom, wp, hinsert]
  refine ⟨res, rfl, ?_⟩
  simp only [checkRow, herrors, hone, Nat.lt_irrefl, ne_eq, not_true_eq_false, if_false]
  exact ⟨rfl, hcontents, rfl, rfl, rfl⟩

/-- A row with a free key, or in `replace` mode, is written. -/
theorem writeRow_free {row : Row V} {key : V} (hkey : row.lookup W.primaryKey = some key)
    {w : World S} (hfree : W.conflictAction = .replace ∨ R.contents w.server key = none) :
    wp (writeRow W row) (fun o w' => o = .ok () ∧ Stores R [row] w w') w := by
  have hinsert := insertRow_stores R hkey hfree
  unfold writeRow rowResult
  rw [hkey]
  dsimp only
  rw [wp_bind]
  cases hmode : W.conflictAction with
  | replace =>
    rw [hmode] at hinsert
    rw [wp_bind]
    refine hinsert.mono ?_
    rintro o w₁ ⟨res, rfl, hcheck⟩
    exact hcheck
  | error =>
    rw [hmode] at hinsert
    have hget : query (S.get key) w = (.ok none, w) := by
      rw [← hfree.resolve_left (by simp [hmode])]
      simp [query, zoom, R.get]
    dsimp only
    rw [wp_bind, wp, hget, bindPost_ok]
    have hmissing : Missing (none : Option (Row V)) := rfl
    rw [if_pos hmissing, wp_bind]
    refine hinsert.mono ?_
    rintro o w₁ ⟨res, rfl, hcheck⟩
    exact hcheck

/-- In `error` mode a row under a taken key is not written, be it the row itself. -/
theorem writeRow_taken (hmode : W.conflictAction = .error) {row existing : Row V} {key : V}
    (hkey : row.lookup W.primaryKey = some key) {w : World S}
    (htaken : R.contents w.server key = some existing) :
    wp (writeRow W row) (fun o _ => ∃ e, o = .error e) w := by
  have hget : query (S.get key) w = (.ok (some existing), w) := by
    rw [← htaken]
    simp [query, zoom, R.get]
  have hthere : ¬Missing (some existing) := by
    intro hempty
    have hlookup := R.keyed _ _ _ htaken
    have hnil : existing = ∅ := hempty
    rw [hnil, Finmap.lookup_empty] at hlookup
    cases hlookup
  unfold writeRow rowResult
  rw [hkey, hmode]
  dsimp only
  rw [wp_bind, wp_bind, wp, hget, bindPost_ok, if_neg hthere, wp_ite]
  exact ⟨fun _ => ⟨_, rfl⟩, fun _ => ⟨_, rfl⟩⟩

theorem forEach_replace (hmode : W.conflictAction = .replace) (batch : List (Row V))
    (hkeys : ∀ row ∈ batch, W.primaryKey ∈ row) (w : World S) :
    wp (forEach (writeRow W) batch) (fun o w' => o = .ok () ∧ Stores R batch w w') w := by
  induction batch generalizing w with
  | nil => exact ⟨rfl, .refl R w⟩
  | cons row batch ih =>
    obtain ⟨key, hkey⟩ := Finmap.mem_iff.mp (hkeys row (by simp))
    unfold forEach
    rw [wp_bind]
    refine (writeRow_free R hkey (.inl hmode)).mono ?_
    rintro o w₁ ⟨rfl, hrow⟩
    rw [bindPost_ok]
    refine (ih (fun row hrow => hkeys row (by simp [hrow])) w₁).mono ?_
    rintro o w' ⟨rfl, hrest⟩
    exact ⟨rfl, hrow.trans hrest⟩

/-- In `error` mode the loop either writes every row or stops at one whose key is taken. -/
theorem forEach_error (hmode : W.conflictAction = .error) (batch : List (Row V))
    (hkeys : ∀ row ∈ batch, W.primaryKey ∈ row) (w : World S) :
    wp (forEach (writeRow W) batch) (fun o w' =>
      o = .ok () ∧ Recoverable W.primaryKey (R.contents w.server) batch .error ∧ Stores R batch w w' ∨
      (∃ e, o = .error e) ∧ ¬Recoverable W.primaryKey (R.contents w.server) batch .error) w := by
  induction batch generalizing w with
  | nil => exact .inl ⟨rfl, by simp [Recoverable], .refl R w⟩
  | cons row batch ih =>
    obtain ⟨key, hkey⟩ := Finmap.mem_iff.mp (hkeys row (by simp))
    have hrest := fun w₁ => ih (fun row hrow => hkeys row (by simp [hrow])) w₁
    unfold forEach
    rw [wp_bind]
    cases hcontents : R.contents w.server key with
    | some existing =>
      refine (writeRow_taken R hmode hkey hcontents).mono ?_
      rintro o w₁ ⟨e, rfl⟩
      refine .inr ⟨⟨e, rfl⟩, fun hrec => ?_⟩
      rw [hrec.1 row (by simp) key hkey] at hcontents
      cases hcontents
    | none =>
      refine (writeRow_free R hkey (.inr hcontents)).mono ?_
      rintro o w₁ ⟨rfl, hrow⟩
      have hput : R.contents w₁.server = Function.update (R.contents w.server) key (some row) := by
        rw [hrow.contents]
        simp [Contents.put, hkey]
      -- the rest is recoverable after this row if and only if all of it was before
      have hiff : Recoverable W.primaryKey (R.contents w₁.server) batch .error ↔
          Recoverable W.primaryKey (R.contents w.server) (row :: batch) .error := by
        have hother : ∀ row' ∈ batch, (∀ key', row'.lookup W.primaryKey = some key' →
            R.contents w₁.server key' = none) ↔
            row.lookup W.primaryKey ≠ row'.lookup W.primaryKey ∧
              ∀ key', row'.lookup W.primaryKey = some key' → R.contents w.server key' = none := by
          intro row' hrow'
          obtain ⟨key', hkey'⟩ := Finmap.mem_iff.mp (hkeys row' (by simp [hrow']))
          rw [hput, hkey, hkey']
          by_cases hsame : key' = key
          · simp [hsame]
          · simp [Function.update_of_ne hsame, Ne.symm hsame]
        simp only [Recoverable, List.forall_mem_cons, List.map_cons, List.nodup_cons, List.mem_map,
          not_exists, not_and]
        constructor
        · rintro ⟨hfree, hnodup⟩
          refine ⟨⟨?_, fun row' hrow' => ((hother row' hrow').mp (hfree row' hrow')).2⟩, ?_, hnodup⟩
          · intro key' hkey'
            rw [hkey] at hkey'
            cases hkey'
            exact hcontents
          · exact fun row' hrow' heq => ((hother row' hrow').mp (hfree row' hrow')).1 heq.symm
        · rintro ⟨⟨-, hfree⟩, hne, hnodup⟩
          exact ⟨fun row' hrow' => (hother row' hrow').mpr
            ⟨fun heq => hne row' hrow' heq.symm, hfree row' hrow'⟩, hnodup⟩
      rw [bindPost_ok]
      refine (hrest w₁).mono ?_
      rintro o w' (⟨rfl, hrec, hstores⟩ | ⟨herr, hrec⟩)
      · exact .inl ⟨rfl, hiff.mp hrec, hrow.trans hstores⟩
      · exact .inr ⟨herr, fun h => hrec (hiff.mpr h)⟩

/-- Recovery after a partially written batch: when the batch insert fails with a `ReqlError`,
whatever it left in the table, all is well exactly when the table and batch are recoverable. -/
theorem processBatch_recovers_iff (batch : List (Row V)) (hkeys : ∀ row ∈ batch, W.primaryKey ∈ row)
    (w : World S) {text : String} {left : S.State}
    (hfail : S.insert W.conflictAction batch w.server = (.error (.reql text), left)) :
    ((writeBatch W batch w).1 = .ok () ∧ Recovered R batch w (processBatch W batch w).2) ↔
      Recoverable W.primaryKey (R.contents left) batch W.conflictAction := by
  have hbatch : writeBatch W batch w = forEach (writeRow W) batch { w with server := left } := by
    have hinsert : insertBatch W batch w = (.error (.reql text), { w with server := left }) := by
      have hquery : query (S.insert W.conflictAction batch) w =
          (.error (.reql text), { w with server := left }) := by
        simp [query, zoom, hfail]
      show after _ (query (S.insert W.conflictAction batch) w) = _
      rw [hquery]
      rfl
    unfold writeBatch handle
    rw [hinsert]
  have hok : ∀ w', writeBatch W batch w = (.ok (), w') → (processBatch W batch w).2 = w' := by
    intro w' hw'
    unfold processBatch handle
    rw [hw']
  have hstored : ∀ w', Stores R batch { w with server := left } w' →
      (∀ row ∈ batch, ∀ row' ∈ batch,
        row.lookup W.primaryKey = row'.lookup W.primaryKey → row = row') →
      Recovered R batch w w' := by
    intro w' hstores hagree
    refine ⟨hstores.queues.1, hstores.queues.2, hstores.rowsWritten, fun row hrow key hkey => ?_⟩
    rw [hstores.contents]
    exact Contents.foldl_put hagree _ hrow hkey
  cases hmode : W.conflictAction with
  | replace =>
    obtain ⟨hfine, hstores⟩ := forEach_replace R hmode batch hkeys { w with server := left }
    rw [← hbatch] at hfine hstores
    have hend := hok _ (Prod.ext hfine rfl)
    rw [hend]
    refine ⟨fun ⟨_, hrec⟩ row hrow row' hrow' heq => ?_, fun hagree => ⟨hfine, hstored _ hstores hagree⟩⟩
    obtain ⟨key, hkey⟩ := Finmap.mem_iff.mp (hkeys row hrow)
    have hthere := hrec.stored row hrow key hkey
    rw [hrec.stored row' hrow' key (heq ▸ hkey)] at hthere
    exact (Option.some.inj hthere).symm
  | error =>
    have hloop := forEach_error R hmode batch hkeys { w with server := left }
    unfold wp at hloop
    rw [← hbatch] at hloop
    rcases hloop with ⟨hfine, hrec, hstores⟩ | ⟨⟨e, herr⟩, hrec⟩
    · rw [hok _ (Prod.ext hfine rfl)]
      exact ⟨fun _ => hrec, fun _ => ⟨hfine, hstored _ hstores fun row hrow row' hrow' =>
        List.inj_on_of_nodup_map hrec.2 hrow hrow'⟩⟩
    · refine ⟨fun ⟨hfine, _⟩ => ?_, fun h => absurd h hrec⟩
      rw [herr] at hfine
      cases hfine

end Writer

/-- Every row is under its own key. -/
def Contents.Keyed (primaryKey : String) (T : Contents V) : Prop :=
  ∀ key row, T key = some row → row.lookup primaryKey = some key

theorem Contents.Keyed.put {T : Contents V} (hT : T.Keyed primaryKey) (row : Row V) :
    (T.put primaryKey row).Keyed primaryKey := by
  intro key row' h
  unfold Contents.put at h
  cases hkey : row.lookup primaryKey with
  | none => exact hT key row' (by simpa only [hkey] using h)
  | some key' =>
    simp only [hkey] at h
    by_cases heq : key = key'
    · subst heq
      rw [Function.update_self] at h
      rw [← Option.some.inj h, hkey]
    · exact hT key row' (by simpa only [Function.update_of_ne heq] using h)

/-- A table held in memory, under the key `id`. A batch of several rows loses its connection
after the first of them. -/
def lossyServer : TableServer ℕ where
  State := { T : Contents ℕ // T.Keyed "id" }
  get key := Prog.read fun s => s.1 key
  insert conflict rows := fun s =>
    match rows with
    | [row] => match (row.lookup "id").bind s.1, conflict with
      | none, _ => (.ok ⟨0, 1, 0, 0, none⟩, ⟨_, s.2.put row⟩)
      | some _, .error => (.ok ⟨1, 0, 0, 0, some "Duplicate primary key `id`"⟩, s)
      | some old, .replace =>
        (.ok (if old = row then ⟨0, 0, 0, 1, none⟩ else ⟨0, 0, 1, 0, none⟩), ⟨_, s.2.put row⟩)
    | row :: _ => (.error (.reql "Connection is closed."), ⟨_, s.2.put row⟩)
    | [] => (.ok ⟨0, 0, 0, 0, none⟩, s)

def lossyServer_reliable : Reliable lossyServer "id" where
  contents s := s.1
  keyed s := s.2
  get s key := rfl
  insert s conflict row key hkey hfree := by
    have hinsert : ∀ res, (lossyServer.insert conflict [row] s) = (.ok res, ⟨_, s.2.put row⟩) →
        res.errors = 0 → res.inserted + res.replaced + res.unchanged = 1 →
        ∃ res s', lossyServer.insert conflict [row] s = (.ok res, s') ∧ res.errors = 0 ∧
          res.inserted + res.replaced + res.unchanged = 1 ∧ s'.1 = s.1.put "id" row :=
      fun res h herrors hone => ⟨res, _, h, herrors, hone, rfl⟩
    cases hold : s.1 key with
    | none => exact hinsert ⟨0, 1, 0, 0, none⟩ (by simp [lossyServer, hkey, hold]) rfl rfl
    | some old =>
      have hreplace := hfree.resolve_right (by simp [hold])
      subst hreplace
      refine hinsert (if old = row then ⟨0, 0, 0, 1, none⟩ else ⟨0, 0, 1, 0, none⟩)
        (by simp [lossyServer, hkey, hold]) ?_ ?_ <;> split_ifs <;> rfl

def lossyWriter (conflictAction : ConflictAction) : Writer ℕ :=
  ⟨"db", "table", "id", conflictAction, fun _ => "", fun _ => ""⟩

def emptyWorld : World lossyServer := ⟨⟨fun _ => none, by simp [Contents.Keyed]⟩, 0, [], false⟩

def rowOf (key : ℕ) : Row ℕ := Finmap.singleton "id" key

theorem mem_rowOf (key : ℕ) : "id" ∈ rowOf key := by
  simp [rowOf]

namespace Writer

/-- With `--force` the first row is written again and the second for the first time. -/
theorem processBatch_recovers_forced :
    (writeBatch (lossyWriter .replace) [rowOf 1, rowOf 2] emptyWorld).1 = .ok () ∧
      Recovered lossyServer_reliable [rowOf 1, rowOf 2] emptyWorld
        (processBatch (lossyWriter .replace) [rowOf 1, rowOf 2] emptyWorld).2 := by
  have hagree : Recoverable "id" (Contents.put "id" (fun _ => none) (rowOf 1)) [rowOf 1, rowOf 2]
      .replace := by
    simp [Recoverable, rowOf]
  exact (processBatch_recovers_iff (W := lossyWriter .replace) lossyServer_reliable _
    (by simp [lossyWriter, mem_rowOf]) emptyWorld rfl).mpr hagree

/-- The row that was stored already leaves `res` at `None`, and `res["errors"]` raises. -/
theorem stored_row_not_recovered :
    ¬∀ (W : Writer ℕ) (R : Reliable lossyServer W.primaryKey) (batch stored : List (Row ℕ))
      (w : World lossyServer) (text : String) (left : lossyServer.State),
      (∀ row ∈ batch, W.primaryKey ∈ row) → stored.Sublist batch →
      lossyServer.insert W.conflictAction batch w.server = (.error (.reql text), left) →
      R.contents left = stored.foldl (Contents.put W.primaryKey) (R.contents w.server) →
      (writeBatch W batch w).1 = .ok () ∧ Recovered R batch w (processBatch W batch w).2 := by
  intro h
  have hraised : (writeBatch (lossyWriter .error) [rowOf 1, rowOf 2] emptyWorld).1 = .error .type := by
    decide +kernel
  have hfine := (h (lossyWriter .error) lossyServer_reliable [rowOf 1, rowOf 2] [rowOf 1] emptyWorld _ _
    (by simp [lossyWriter, mem_rowOf]) (by simp) rfl rfl).1
  rw [hraised] at hfine
  cases hfine

end Writer
end RethinkDB.Import
