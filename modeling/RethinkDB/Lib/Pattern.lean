import Mathlib.Data.List.Forall2
import Mathlib.Tactic.SplitIfs

/-! Patterns that are a sequence of repeated tests of one element, matched against a whole list. -/
namespace RethinkDB.Lib.Pattern

variable {α : Type}

/-- One element, any number of them, and at least one, that pass the test. -/
inductive Piece (α : Type) where
  | one (test : α → Bool)
  | many (test : α → Bool)
  | some (test : α → Bool)

/-- A run of elements that pass the test, then what `rest` takes. -/
def star (test : α → Bool) (rest : List α → Bool) : List α → Bool
  | [] => rest []
  | x :: xs => rest (x :: xs) || test x && star test rest xs

def fullMatch : List (Piece α) → List α → Bool
  | [], xs => xs.isEmpty
  | .one _ :: _, [] => false
  | .one test :: ps, x :: xs => test x && fullMatch ps xs
  | .many test :: ps, xs => star test (fullMatch ps) xs
  | .some _ :: _, [] => false
  | .some test :: ps, x :: xs => test x && star test (fullMatch ps) xs

variable {test : α → Bool} {rest : List α → Bool} {ps qs : List (Piece α)} {xs : List α}

theorem star_iff : star test rest xs = true ↔
    ∃ ys zs, xs = ys ++ zs ∧ (∀ y ∈ ys, test y = true) ∧ rest zs = true := by
  induction xs with
  | nil => simp [star]
  | cons x xs ih =>
    rw [star, Bool.or_eq_true, Bool.and_eq_true, ih]
    constructor
    · intro h
      cases h with
      | inl h => exact ⟨[], x :: xs, rfl, by simp, h⟩
      | inr h =>
        obtain ⟨hx, ys, zs, hxs, hys, hzs⟩ := h
        exact ⟨x :: ys, zs, by rw [hxs, List.cons_append], by simpa using ⟨hx, hys⟩, hzs⟩
    · intro h
      obtain ⟨ys, zs, hxs, hys, hzs⟩ := h
      cases ys with
      | nil =>
        left
        rw [hxs]
        exact hzs
      | cons y ys =>
        right
        rw [List.cons_append] at hxs
        obtain ⟨hy, hxs⟩ := List.cons.inj hxs
        rw [hy]
        exact ⟨hys y List.mem_cons_self, ys, zs, hxs,
          fun z hz => hys z (List.mem_cons_of_mem y hz), hzs⟩

@[simp] theorem fullMatch_nil : fullMatch ([] : List (Piece α)) xs = true ↔ xs = [] := by
  rw [fullMatch, List.isEmpty_iff]

theorem fullMatch_one : fullMatch (.one test :: ps) xs = true ↔
    ∃ y zs, xs = y :: zs ∧ test y = true ∧ fullMatch ps zs = true := by
  cases xs with
  | nil => simp [fullMatch]
  | cons x xs => simp [fullMatch]

theorem fullMatch_many : fullMatch (.many test :: ps) xs = true ↔
    ∃ ys zs, xs = ys ++ zs ∧ (∀ y ∈ ys, test y = true) ∧ fullMatch ps zs = true := by
  rw [fullMatch, star_iff]

theorem fullMatch_some : fullMatch (.some test :: ps) xs = true ↔
    ∃ ys zs, ys ≠ [] ∧ xs = ys ++ zs ∧ (∀ y ∈ ys, test y = true) ∧ fullMatch ps zs = true := by
  cases xs with
  | nil =>
    simp only [fullMatch, Bool.false_eq_true, false_iff]
    rintro ⟨ys, zs, hne, hxs, -⟩
    exact hne (List.append_eq_nil_iff.mp hxs.symm).1
  | cons x xs =>
    rw [fullMatch, Bool.and_eq_true, star_iff]
    constructor
    · intro h
      obtain ⟨hx, ys, zs, hxs, hys, hzs⟩ := h
      exact ⟨x :: ys, zs, by simp, by rw [hxs, List.cons_append], by simpa using ⟨hx, hys⟩, hzs⟩
    · intro h
      obtain ⟨ys, zs, hne, hxs, hys, hzs⟩ := h
      obtain ⟨y, ys, rfl⟩ := List.exists_cons_of_ne_nil hne
      rw [List.cons_append] at hxs
      obtain ⟨hy, hxs⟩ := List.cons.inj hxs
      rw [hy]
      exact ⟨hys y List.mem_cons_self, ys, zs, hxs,
        fun z hz => hys z (List.mem_cons_of_mem y hz), hzs⟩

/-- Patterns one after another match texts one after another. -/
theorem fullMatch_append : fullMatch (ps ++ qs) xs = true ↔
    ∃ ys zs, xs = ys ++ zs ∧ fullMatch ps ys = true ∧ fullMatch qs zs = true := by
  induction ps generalizing xs with
  | nil => simp
  | cons p ps ih =>
    cases p with
    | one test =>
      rw [List.cons_append, fullMatch_one]
      constructor
      · intro h
        obtain ⟨y, zs, rfl, hy, hzs⟩ := h
        obtain ⟨us, vs, rfl, hus, hvs⟩ := ih.mp hzs
        exact ⟨y :: us, vs, rfl, fullMatch_one.mpr ⟨y, us, rfl, hy, hus⟩, hvs⟩
      · intro h
        obtain ⟨ys, zs, rfl, hys, hzs⟩ := h
        obtain ⟨y, us, rfl, hy, hus⟩ := fullMatch_one.mp hys
        exact ⟨y, us ++ zs, rfl, hy, ih.mpr ⟨us, zs, rfl, hus, hzs⟩⟩
    | many test =>
      rw [List.cons_append, fullMatch_many]
      constructor
      · intro h
        obtain ⟨ws, zs, rfl, hws, hzs⟩ := h
        obtain ⟨us, vs, rfl, hus, hvs⟩ := ih.mp hzs
        exact ⟨ws ++ us, vs, by rw [List.append_assoc],
          fullMatch_many.mpr ⟨ws, us, rfl, hws, hus⟩, hvs⟩
      · intro h
        obtain ⟨ys, zs, rfl, hys, hzs⟩ := h
        obtain ⟨ws, us, rfl, hws, hus⟩ := fullMatch_many.mp hys
        exact ⟨ws, us ++ zs, by rw [List.append_assoc], hws, ih.mpr ⟨us, zs, rfl, hus, hzs⟩⟩
    | some test =>
      rw [List.cons_append, fullMatch_some]
      constructor
      · intro h
        obtain ⟨ws, zs, hne, rfl, hws, hzs⟩ := h
        obtain ⟨us, vs, rfl, hus, hvs⟩ := ih.mp hzs
        exact ⟨ws ++ us, vs, by rw [List.append_assoc],
          fullMatch_some.mpr ⟨ws, us, hne, rfl, hws, hus⟩, hvs⟩
      · intro h
        obtain ⟨ys, zs, rfl, hys, hzs⟩ := h
        obtain ⟨ws, us, hne, rfl, hws, hus⟩ := fullMatch_some.mp hys
        exact ⟨ws, us ++ zs, hne, by rw [List.append_assoc], hws,
          ih.mpr ⟨us, zs, rfl, hus, hzs⟩⟩

/-- A test for each element. -/
theorem fullMatch_ones {tests : List (α → Bool)} : fullMatch (tests.map .one) xs = true ↔
    List.Forall₂ (fun test x => test x = true) tests xs := by
  induction tests generalizing xs with
  | nil => simp
  | cons test tests ih =>
    rw [List.map_cons, fullMatch_one, List.forall₂_cons_left_iff]
    simp only [ih]
    constructor
    · intro h
      obtain ⟨y, zs, hxs, hy, hzs⟩ := h
      exact ⟨y, zs, hy, hzs, hxs⟩
    · intro h
      obtain ⟨y, zs, hy, hzs, hxs⟩ := h
      exact ⟨y, zs, hxs, hy, hzs⟩

end RethinkDB.Lib.Pattern
