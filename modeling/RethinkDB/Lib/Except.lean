import Mathlib.Data.List.Forall2
import RethinkDB.Lib.Prog

/-! Loops over lists in `Except`. -/
namespace RethinkDB.Lib

variable {ε α β : Type}

theorem bind_eq_error {x : Except ε α} {f : α → Except ε β} {e : ε} :
    x >>= f = .error e ↔ x = .error e ∨ ∃ a, x = .ok a ∧ f a = .error e := by
  cases x with
  | ok a =>
    constructor
    · exact fun h => .inr ⟨a, rfl, h⟩
    · intro h
      cases h with
      | inl h => cases h
      | inr h =>
        obtain ⟨_, ha, h⟩ := h
        cases ha
        exact h
  | error e' =>
    constructor
    · intro h
      cases h
      exact .inl rfl
    · intro h
      cases h with
      | inl h => cases h; rfl
      | inr h =>
        obtain ⟨_, ha, _⟩ := h
        cases ha

/-- `x` returns what satisfies `P`, or raises: that it returns is decided by `ok`. -/
def Decided (ok : Bool) (P : α → Prop) (x : Except ε α) : Prop :=
  if ok then ∃ a, x = .ok a ∧ P a else ∃ e, x = .error e

namespace Decided
variable {ok ok' : Bool} {P : α → Prop} {Q : β → Prop} {x : Except ε α} {f : α → Except ε β}

theorem returns {a : α} (ha : P a) : Decided true P (.ok a : Except ε α) := ⟨a, rfl, ha⟩

theorem raises (e : ε) : Decided false P (.error e) := ⟨e, rfl⟩

theorem bind (hx : Decided ok P x) (hf : ∀ a, P a → Decided ok' Q (f a)) :
    Decided (ok && ok') Q (x >>= f) := by
  cases ok with
  | false =>
    obtain ⟨e, he⟩ := hx
    exact ⟨e, bind_eq_error.mpr (.inl he)⟩
  | true =>
    obtain ⟨a, ha, hP⟩ := hx
    rw [ha]
    exact hf a hP

theorem mono (hx : Decided ok P x) {P' : α → Prop} (h : ∀ a, P a → P' a) : Decided ok P' x := by
  cases ok with
  | false => exact hx
  | true =>
    obtain ⟨a, ha, hP⟩ := hx
    exact ⟨a, ha, h a hP⟩

theorem returns_iff (hx : Decided ok P x) : (∃ a, x = .ok a) ↔ ok = true := by
  cases ok with
  | false =>
    obtain ⟨e, he⟩ := hx
    simp [he]
  | true =>
    obtain ⟨a, ha, -⟩ := hx
    simp [ha]

end Decided

theorem mapM_eq_ok {f : α → Except ε β} {xs : List α} {ys : List β} :
    xs.mapM f = .ok ys ↔ List.Forall₂ (fun x y => f x = .ok y) xs ys := by
  induction xs generalizing ys with
  | nil =>
    rw [List.mapM_nil, List.forall₂_nil_left_iff]
    exact ⟨fun h => (Except.ok.inj h).symm, fun h => congrArg _ h.symm⟩
  | cons x xs ih =>
    rw [List.mapM_cons, List.forall₂_cons_left_iff]
    simp only [bind_eq_ok, ih]
    constructor
    · intro ⟨y, hy, ys', hys', h⟩
      exact ⟨y, ys', hy, hys', (Except.ok.inj h).symm⟩
    · intro ⟨y, ys', hy, hys', h⟩
      exact ⟨y, hy, ys', hys', congrArg _ h.symm⟩

theorem mapM_eq_error {f : α → Except ε β} {xs : List α} {e : ε} (h : xs.mapM f = .error e) :
    ∃ x ∈ xs, f x = .error e := by
  induction xs with
  | nil => cases h
  | cons x xs ih =>
    rw [List.mapM_cons] at h
    cases bind_eq_error.mp h with
    | inl hx => exact ⟨x, by simp, hx⟩
    | inr h =>
      obtain ⟨y, -, h⟩ := h
      cases bind_eq_error.mp h with
      | inl hxs =>
        obtain ⟨x', hx', he⟩ := ih hxs
        exact ⟨x', by simp [hx'], he⟩
      | inr h =>
        obtain ⟨_, -, h⟩ := h
        cases h

/-- The rule of a loop whose turns change nothing. -/
theorem foldlM_fixed {f : β → α → Except ε β} {b : β} {P : α → Prop}
    (h : ∀ x b', f b x = .ok b' ↔ b' = b ∧ P x) {xs : List α} {b' : β} :
    xs.foldlM f b = .ok b' ↔ b' = b ∧ ∀ x ∈ xs, P x := by
  induction xs with
  | nil =>
    rw [List.foldlM_nil]
    change Except.ok b = Except.ok b' ↔ _
    simp [eq_comm]
  | cons x xs ih =>
    rw [List.foldlM_cons, bind_eq_ok, List.forall_mem_cons]
    constructor
    · intro ⟨b'', hx, hxs⟩
      obtain ⟨hb, hP⟩ := (h x b'').mp hx
      rw [hb] at hxs
      obtain ⟨hb', hPs⟩ := ih.mp hxs
      exact ⟨hb', hP, hPs⟩
    · intro ⟨hb', hP, hPs⟩
      exact ⟨b, (h x b).mpr ⟨rfl, hP⟩, ih.mpr ⟨hb', hPs⟩⟩

/-- The rule of a loop whose turns each add what `load` makes of the elements `g x` to what `out`
reads off its state. -/
theorem foldlM_mapM {γ δ : Type} {f : β → α → Except ε β} {load : δ → Except ε γ} {g : α → List δ}
    {out : β → List γ}
    (h : ∀ b x, (f b x).map out = ((g x).mapM load).map fun ys => out b ++ ys)
    (xs : List α) (b : β) :
    (xs.foldlM f b).map out = ((xs.flatMap g).mapM load).map fun ys => out b ++ ys := by
  induction xs generalizing b with
  | nil => exact congrArg Except.ok (List.append_nil (out b)).symm
  | cons x xs ih =>
    have hx := h b x
    rw [List.foldlM_cons, List.flatMap_cons, List.mapM_append]
    cases hf : f b x with
    | error e =>
      rw [hf] at hx
      cases hg : (g x).mapM load with
      | error e' =>
        rw [hg] at hx
        cases hx
        rfl
      | ok ys =>
        rw [hg] at hx
        cases hx
    | ok b' =>
      rw [hf] at hx
      cases hg : (g x).mapM load with
      | error e' =>
        rw [hg] at hx
        cases hx
      | ok ys =>
        rw [hg] at hx
        have hout : out b' = out b ++ ys := Except.ok.inj hx
        change (xs.foldlM f b').map out = _
        rw [ih b', hout]
        change _ = (((xs.flatMap g).mapM load) >>= fun zs => pure (ys ++ zs)).map _
        cases (xs.flatMap g).mapM load with
        | error e => rfl
        | ok zs => exact congrArg Except.ok (List.append_assoc (out b) ys zs)

end RethinkDB.Lib
