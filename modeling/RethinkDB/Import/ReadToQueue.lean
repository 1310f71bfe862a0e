import Mathlib.Tactic.Linarith
import RethinkDB.Lib.Except

/-! `SourceFile.read_to_queue` over `SourceFile.batches`: how the rows of a source are cut into the
batches of the work queue. -/
namespace RethinkDB.Import.ReadToQueue
open RethinkDB.Lib

/-- A row, which is a dict. -/
abbrev Row (V : Type) := List (String × V)

/-- What `get_line` comes to: a row, or a `NeedMoreData` after which the buffer is filled. Behind
the last of them there is a `StopIteration`. -/
inductive Line (V : Type) where
  | row (row : Row V)
  | needMoreData

/-- What the process meets in the loop around `put`: a queue that is full, one that is not, or the
exit event. -/
inductive Attempt where
  | full
  | room
  | exit
  deriving Repr, DecidableEq

structure State (V : Type) where
  workQueue : List (String × String × List (Row V))
  rowsRead : ℕ

def State.start (V : Type) : State V := ⟨[], 0⟩

/-- A reader whose queue stays full is `waiting`. -/
inductive End where
  | ended
  | left
  | waiting
  deriving Repr, DecidableEq

/-- An `AssertionError`. -/
inductive ReadExn where
  | assertion (message : String)
  deriving Repr, DecidableEq

variable {V : Type}

def defaultBatchSize : ℤ := 200

/-- The loops of `batches`: a batch that is full is yielded, as is what the end of the file
leaves. -/
def cut (batchSize : ℤ) : List (Row V) → List (Line V) → List (List (Row V))
  | batch, [] => if batch = [] then [] else [batch]
  | batch, .needMoreData :: lines => cut batchSize batch lines
  | batch, .row row :: lines =>
    let batch := batch ++ [row]
    if batch.length < batchSize then cut batchSize batch lines
    else batch :: cut batchSize [] lines

def batches (source : List (Line V)) (batchSize : Option ℤ) :
    Except ReadExn (List (List (Row V))) :=
  let batchSize := batchSize.getD defaultBatchSize
  if batchSize ≤ 0 then .error (.assertion "Batch size can not be less than one")
  else .ok (cut batchSize [] source)

def filterRow (fields : Option (List String)) (row : Row V) : Row V :=
  if fields.getD [] = [] then row else row.filter fun item => item.1 ∈ fields.getD []

/-- The loop over the batches with the loop around `put`. -/
def deliver (db table : String) : List (List (Row V)) → List Attempt → State V → End × State V
  | [], _, s => (.ended, s)
  | _ :: _, [], s => (.waiting, s)
  | batch :: batches, .full :: attempts, s => deliver db table (batch :: batches) attempts s
  | _ :: _, .exit :: _, s => (.left, s)
  | batch :: batches, .room :: attempts, s =>
    deliver db table batches attempts {
      workQueue := s.workQueue ++ [(db, table, batch)]
      rowsRead := s.rowsRead + batch.length }

/-- `read_to_queue`: its own `batch_size` goes no further. -/
def readToQueue (source : List (Line V)) (db table : String) (fields : Option (List String))
    (_batchSize : Option ℤ) (attempts : List Attempt) : Except ReadExn (End × State V) := do
  let batches ← batches source none
  return deliver db table (batches.map fun batch => batch.map (filterRow fields)) attempts (.start V)

/-! ### How lists are cut -/

def rows (source : List (Line V)) : List (Row V) :=
  source.filterMap fun
    | .row row => some row
    | .needMoreData => none

/-- `xs` cut into pieces of `b` elements, and a last one that may have fewer. -/
structure Cut {α : Type} (b : ℕ) (xs : List α) (pieces : List (List α)) : Prop where
  flatten_eq : pieces.flatten = xs
  full : ∀ piece ∈ pieces.dropLast, piece.length = b
  last : ∀ piece ∈ pieces, piece ≠ [] ∧ piece.length ≤ b

theorem Cut.cons {α : Type} {b : ℕ} {xs piece : List α} {pieces : List (List α)} (hb : 0 < b)
    (hpiece : piece.length = b) (h : Cut b xs pieces) : Cut b (piece ++ xs) (piece :: pieces) := by
  constructor
  · rw [List.flatten_cons, h.flatten_eq]
  · intro p hp
    cases pieces with
    | nil => cases hp
    | cons q pieces =>
      rw [List.dropLast_cons_of_ne_nil (by simp), List.mem_cons] at hp
      cases hp with
      | inl hp => rw [hp, hpiece]
      | inr hp => exact h.full p hp
  · intro p hp
    cases List.mem_cons.mp hp with
    | inl hp =>
      rw [hp]
      exact ⟨List.ne_nil_of_length_pos (by omega), hpiece.le⟩
    | inr hp => exact h.last p hp

theorem Cut.map {α β : Type} {b : ℕ} {xs : List α} {pieces : List (List α)} (h : Cut b xs pieces)
    (f : α → β) : Cut b (xs.map f) (pieces.map fun piece => piece.map f) := by
  constructor
  · rw [← h.flatten_eq, List.map_flatten]
  · intro p hp
    rw [← List.map_dropLast] at hp
    obtain ⟨piece, hpiece, hp⟩ := List.mem_map.mp hp
    rw [← hp, List.length_map, h.full piece hpiece]
  · intro p hp
    obtain ⟨piece, hpiece, hp⟩ := List.mem_map.mp hp
    have hlast := h.last piece hpiece
    rw [← hp, List.length_map]
    exact ⟨by simpa using hlast.1, hlast.2⟩

/-- A list that is cut in two ways is shorter than either piece. -/
theorem eq_or_short {α : Type} {b b' : ℕ} {xs : List α} {pieces : List (List α)}
    (h : Cut b xs pieces) (h' : Cut b' xs pieces) : b = b' ∨ xs.length ≤ b ∧ xs.length ≤ b' := by
  cases pieces with
  | nil =>
    right
    rw [← h.flatten_eq]
    exact ⟨Nat.zero_le b, Nat.zero_le b'⟩
  | cons piece pieces =>
    cases pieces with
    | nil =>
      right
      have hxs : xs = piece := by rw [← h.flatten_eq, List.flatten_singleton]
      rw [hxs]
      exact ⟨(h.last piece (by simp)).2, (h'.last piece (by simp)).2⟩
    | cons piece' pieces =>
      left
      rw [← h.full piece (by simp), ← h'.full piece (by simp)]

/-- A list shorter than the pieces is not cut. -/
theorem Cut.of_short {α : Type} {b b' : ℕ} {xs : List α} {pieces : List (List α)}
    (h : Cut b xs pieces) (hb : xs.length ≤ b) (hb' : xs.length ≤ b') : Cut b' xs pieces := by
  cases pieces with
  | nil => exact ⟨h.flatten_eq, by simp, by simp⟩
  | cons piece pieces =>
    cases pieces with
    | nil =>
      have hxs : xs = piece := by rw [← h.flatten_eq, List.flatten_singleton]
      refine ⟨h.flatten_eq, by simp, fun p hp => ?_⟩
      rw [List.mem_singleton.mp hp]
      exact ⟨(h.last piece (by simp)).1, hxs ▸ hb'⟩
    | cons piece' pieces =>
      have hfull := h.full piece (by simp)
      have hnonempty := List.length_pos_of_ne_nil (h.last piece' (by simp)).1
      have hlength := congrArg List.length h.flatten_eq
      simp only [List.flatten_cons, List.length_append] at hlength
      omega

theorem Cut.head {α : Type} {b : ℕ} {xs piece : List α} {pieces : List (List α)}
    (h : Cut b xs (piece :: pieces)) : piece = xs.take b ∧ piece ≠ [] := by
  obtain ⟨hne, hle⟩ := h.last piece (by simp)
  refine ⟨?_, hne⟩
  rw [← h.flatten_eq, List.flatten_cons]
  cases pieces with
  | nil => rw [List.flatten_nil, List.append_nil, List.take_of_length_le hle]
  | cons piece' pieces =>
    have hfull := h.full piece (by simp)
    rw [← hfull, List.take_left]

theorem Cut.tail {α : Type} {b : ℕ} {xs piece : List α} {pieces : List (List α)}
    (h : Cut b xs (piece :: pieces)) : Cut b pieces.flatten pieces := by
  refine ⟨rfl, fun p hp => h.full p ?_, fun p hp => h.last p (List.mem_cons_of_mem _ hp)⟩
  cases pieces with
  | nil => cases hp
  | cons piece' pieces =>
    rw [List.dropLast_cons_of_ne_nil (List.cons_ne_nil _ _)]
    exact List.mem_cons_of_mem _ hp

/-- There is one way to cut a list into pieces of a length. -/
theorem Cut.unique {α : Type} {b : ℕ} {xs : List α} {pieces pieces' : List (List α)}
    (h : Cut b xs pieces) (h' : Cut b xs pieces') : pieces = pieces' := by
  have hnil {xs : List α} {pieces : List (List α)} (h : Cut b xs pieces) (hxs : xs = []) :
      pieces = [] := by
    cases pieces with
    | nil => rfl
    | cons piece pieces =>
      obtain ⟨htake, hne⟩ := h.head
      rw [hxs, List.take_nil] at htake
      exact absurd htake hne
  induction pieces generalizing xs pieces' with
  | nil => exact (hnil h' h.flatten_eq.symm).symm
  | cons piece pieces ih =>
    cases pieces' with
    | nil => exact absurd (hnil h h'.flatten_eq.symm) (List.cons_ne_nil _ _)
    | cons piece' pieces' =>
      have hsame : piece = piece' := h.head.1.trans h'.head.1.symm
      have hflatten := h.flatten_eq.trans h'.flatten_eq.symm
      rw [List.flatten_cons, List.flatten_cons, hsame, List.append_cancel_left_eq] at hflatten
      rw [hsame, ih h.tail (hflatten ▸ h'.tail)]

/-! ### What `read_to_queue` delivers -/

theorem cut_spec {b : ℕ} (hb : 0 < b) (lines : List (Line V)) (batch : List (Row V))
    (hbatch : batch.length < b) : Cut b (batch ++ rows lines) (cut b batch lines) := by
  induction lines generalizing batch with
  | nil =>
    rw [cut, rows, List.filterMap_nil, List.append_nil]
    split_ifs with hempty
    · rw [hempty]
      exact ⟨rfl, by simp, by simp⟩
    · refine ⟨List.flatten_singleton, by simp, fun p hp => ?_⟩
      rw [List.mem_singleton.mp hp]
      exact ⟨hempty, hbatch.le⟩
  | cons line lines ih =>
    cases line with
    | needMoreData => exact ih batch hbatch
    | row row =>
      have hrows : batch ++ rows (.row row :: lines) = (batch ++ [row]) ++ rows lines := by
        rw [List.append_assoc]
        rfl
      rw [cut, hrows]
      split_ifs with hmore
      · exact ih _ (by exact_mod_cast hmore)
      · have hfull : (batch ++ [row]).length = b := by
          rw [List.length_append, List.length_singleton] at hmore ⊢
          omega
        exact (ih [] hb).cons hb hfull

theorem batches_spec {source : List (Line V)} {yielded : List (List (Row V))}
    (h : batches source none = .ok yielded) : Cut 200 (rows source) yielded := by
  cases h
  have h200 : 0 < 200 := by omega
  exact cut_spec h200 source [] h200

/-- However often the queue is full, what is put on it are the batches. -/
theorem deliver_eq {db table : String} {yielded : List (List (Row V))} {attempts : List Attempt}
    (hexit : .exit ∉ attempts) (hroom : yielded.length ≤ attempts.count .room) (s : State V) :
    deliver db table yielded attempts s = (.ended, {
      workQueue := s.workQueue ++ yielded.map fun batch => (db, table, batch)
      rowsRead := s.rowsRead + yielded.flatten.length }) := by
  induction attempts generalizing yielded s with
  | nil =>
    have hnil : yielded = [] := List.eq_nil_of_length_eq_zero (by simpa using hroom)
    rw [hnil]
    simp [deliver]
  | cons attempt attempts ih =>
    rw [List.mem_cons, not_or] at hexit
    cases yielded with
    | nil => simp [deliver]
    | cons batch yielded =>
      cases attempt with
      | exit => exact absurd rfl hexit.1
      | full =>
        rw [deliver]
        exact ih hexit.2 (by simpa using hroom) s
      | room =>
        rw [deliver, ih hexit.2 (by simpa using hroom)]
        simp [Nat.add_assoc]

theorem length_le_flatten {α : Type} {pieces : List (List α)} (h : ∀ piece ∈ pieces, piece ≠ []) :
    pieces.length ≤ pieces.flatten.length := by
  induction pieces with
  | nil => exact Nat.le_refl 0
  | cons piece pieces ih =>
    have hpiece := List.length_pos_of_ne_nil (h piece (by simp))
    have hpieces := ih fun p hp => h p (by simp [hp])
    rw [List.flatten_cons, List.length_append, List.length_cons]
    omega

/-- While the exit event is not set and the queue has room often enough, the rows of the source
restricted to the fields are on it at the end, in batches of `b`, and counted. -/
def Delivers (source : List (Line V)) (db table : String) (fields : Option (List String))
    (b : ℕ) : Prop :=
  ∀ attempts, .exit ∉ attempts → (rows source).length ≤ attempts.count .room →
    ∃ s, readToQueue source db table fields (some b) attempts = .ok (.ended, s) ∧
      s.rowsRead = (rows source).length ∧
      ∃ pieces, s.workQueue = (pieces.map fun piece => (db, table, piece)) ∧
        Cut b ((rows source).map (filterRow fields)) pieces

section Delivery
variable {source : List (Line V)} {db table : String} {fields : Option (List String)} {b : ℕ}

/-- The batches have 200 rows whatever is asked for. -/
theorem readToQueue_eq {attempts : List Attempt} (hexit : .exit ∉ attempts)
    (hroom : (rows source).length ≤ attempts.count .room) :
    ∃ pieces, Cut 200 ((rows source).map (filterRow fields)) pieces ∧
      readToQueue source db table fields (some b) attempts = .ok (.ended, {
        workQueue := pieces.map fun piece => (db, table, piece)
        rowsRead := (rows source).length }) := by
  have hcut : Cut 200 (rows source) (cut defaultBatchSize [] source) := batches_spec rfl
  refine ⟨_, hcut.map (filterRow fields), ?_⟩
  have hlength : ((cut defaultBatchSize [] source).map fun batch =>
      batch.map (filterRow fields)).length ≤ attempts.count .room := by
    rw [List.length_map]
    apply (length_le_flatten fun piece hpiece => (hcut.last piece hpiece).1).trans
    rwa [hcut.flatten_eq]
  change Except.ok (deliver db table ((cut defaultBatchSize [] source).map fun batch =>
    batch.map (filterRow fields)) attempts (.start V)) = _
  rw [deliver_eq hexit hlength, (hcut.map (filterRow fields)).flatten_eq, List.length_map]
  simp [State.start]

theorem cut_pieces_unique {α : Type} {db table : String} {pieces pieces' : List (List α)}
    (h : (pieces.map fun piece => (db, table, piece)) = pieces'.map fun piece => (db, table, piece)) :
    pieces = pieces' := by
  apply List.map_injective_iff.mpr _ h
  intro piece piece' heq
  exact (Prod.mk.inj (Prod.mk.inj heq).2).2

theorem size_of_delivers (h : Delivers source db table fields b) :
    b = 200 ∨ (rows source).length ≤ b ∧ (rows source).length ≤ 200 := by
  let attempts := List.replicate (rows source).length Attempt.room
  have hexit : .exit ∉ attempts := by simp [attempts]
  have hroom : (rows source).length ≤ attempts.count .room := by simp [attempts]
  obtain ⟨s, hs, -, pieces, hqueue, hcut⟩ := h attempts hexit hroom
  obtain ⟨pieces', hcut', hs'⟩ := readToQueue_eq (b := b) hexit hroom
  rw [hs'] at hs
  cases hs
  rw [← cut_pieces_unique hqueue] at hcut
  have hlengths := eq_or_short hcut hcut'
  rwa [List.length_map] at hlengths

theorem delivers_of_size
    (h : b = 200 ∨ (rows source).length ≤ b ∧ (rows source).length ≤ 200) :
    Delivers source db table fields b := by
  intro attempts hexit hroom
  obtain ⟨pieces, hcut, hs⟩ := readToQueue_eq (b := b) hexit hroom
  refine ⟨_, hs, rfl, pieces, rfl, ?_⟩
  cases h with
  | inl hb => rwa [hb]
  | inr hshort =>
    apply hcut.of_short
    · rw [List.length_map]
      exact hshort.2
    · rw [List.length_map]
      exact hshort.1

/-- The batches are as asked for when that is the default, or one batch takes all rows. -/
theorem delivers_iff :
    Delivers source db table fields b ↔
      b = 200 ∨ (rows source).length ≤ b ∧ (rows source).length ≤ 200 :=
  ⟨size_of_delivers, delivers_of_size⟩

end Delivery

/-- Two rows are put on the queue as one batch. -/
theorem one_at_a_time :
    ¬ Delivers [Line.row [("id", 1)], .row [("id", 2)]] "shop" "users" none 1 := by
  intro h
  have hsize := size_of_delivers h
  exact absurd hsize (by decide)

end RethinkDB.Import.ReadToQueue
