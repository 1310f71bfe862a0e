import Mathlib.Algebra.BigOperators.Group.Finset.Piecewise
import Mathlib.Data.Fintype.BigOperators

/-! A shared counter that processes add to by a read and a later write, or in one step under its
lock: when the sum is exact, and that a lost update is never made up for. -/
namespace RethinkDB.Lib
open Function

/-- What each process has read and not yet written back, and what each has added so far. -/
@[ext] structure Counter (ι : Type*) where
  value : ℕ
  reads : ι → Option ℕ
  added : ι → ℕ

namespace Counter

inductive Op (ι : Type*) where
  | skip
  | load (i : ι)
  | store (i : ι) (n : ℕ)
  | add (i : ι) (n : ℕ)

def Op.amount {ι : Type*} : Op ι → ℕ
  | .skip | .load _ => 0
  | .store _ n | .add _ n => n

variable {ι : Type*} [DecidableEq ι]

/-- A process stores what it has read and its own share. -/
def apply (c : Counter ι) : Op ι → Counter ι
  | .skip => c
  | .load i => { c with reads := update c.reads i (some c.value) }
  | .store i n => match c.reads i with
    | some read => ⟨read + n, update c.reads i none, update c.added i (c.added i + n)⟩
    | none => c
  | .add i n => { c with value := c.value + n, added := update c.added i (c.added i + n) }

/-- What is written does not overwrite: nobody else is between its read and its write. -/
def Alone (c : Counter ι) : Op ι → Prop
  | .skip | .load _ => True
  | .store i _ => ∀ j, j ≠ i → c.reads j = none
  | .add _ _ => ∀ j, c.reads j = none

theorem update_reads {P : ℕ → Prop} {reads : ι → Option ℕ} {i : ι} {read : Option ℕ}
    (hreads : ∀ j, j ≠ i → ∀ r, reads j = some r → P r) (hread : ∀ r, read = some r → P r) (j : ι)
    (r : ℕ) (hj : update reads i read j = some r) : P r := by
  by_cases hji : j = i
  · subst hji
    rw [update_self] at hj
    exact hread r hj
  · rw [update_of_ne hji] at hj
    exact hreads j hji r hj

variable [Fintype ι]

def total (c : Counter ι) : ℕ := ∑ i, c.added i

theorem sum_update_add (f : ι → ℕ) (i : ι) (n : ℕ) :
    ∑ j, update f i (f i + n) j = ∑ j, f j + n := by
  rw [Finset.sum_update_of_mem (Finset.mem_univ i), ← Finset.add_sum_erase _ f (Finset.mem_univ i),
    Finset.sdiff_singleton_eq_erase]
  omega

theorem total_apply (c : Counter ι) (op : Op ι) :
    c.total ≤ (c.apply op).total ∧ (c.apply op).total ≤ c.total + op.amount := by
  have hadd (i : ι) (n : ℕ) : ∑ j, update c.added i (c.added i + n) j = c.total + n :=
    sum_update_add c.added i n
  cases op with
  | skip => exact ⟨Nat.le_refl _, Nat.le_add_right _ _⟩
  | load i => exact ⟨Nat.le_refl _, Nat.le_add_right _ _⟩
  | store i n =>
    unfold apply
    dsimp only
    split
    · exact ⟨(Nat.le_add_right _ n).trans_eq (hadd i n).symm, (hadd i n).le⟩
    · exact ⟨Nat.le_refl _, Nat.le_add_right _ _⟩
  | add i n => exact ⟨(Nat.le_add_right _ n).trans_eq (hadd i n).symm, (hadd i n).le⟩

/-- Nothing is lost, and nobody's read is out of date. -/
def Exact (c : Counter ι) : Prop :=
  c.value = c.total ∧ ∀ i r, c.reads i = some r → r = c.value

theorem Exact.apply {c : Counter ι} {op : Op ι} (hc : c.Exact) (halone : c.Alone op) :
    (c.apply op).Exact := by
  obtain ⟨hvalue, hreads⟩ := hc
  cases op with
  | skip => exact ⟨hvalue, hreads⟩
  | load i =>
    constructor
    · exact hvalue
    · exact update_reads (fun j _ => hreads j) (fun r hr => (Option.some.inj hr).symm)
  | store i n =>
    unfold Counter.apply
    dsimp only
    split
    · rename_i read hread
      constructor
      · rw [total, sum_update_add, hreads i read hread, hvalue]
        rfl
      · apply update_reads
        · intro j hj r hr
          rw [halone j hj] at hr
          cases hr
        · intro r hr
          cases hr
    · exact ⟨hvalue, hreads⟩
  | add i n =>
    constructor
    · rw [total, Counter.apply, sum_update_add, hvalue]
      rfl
    · intro j r hr
      rw [Counter.apply, halone j] at hr
      cases hr

/-- At least so much is lost, whatever is written from here on. -/
def Lost (k : ℕ) (c : Counter ι) : Prop :=
  c.value + k ≤ c.total ∧ ∀ i r, c.reads i = some r → r + k ≤ c.total

theorem Lost.apply {k : ℕ} {c : Counter ι} (hc : c.Lost k) (op : Op ι) : (c.apply op).Lost k := by
  have htotal := (total_apply c op).1
  obtain ⟨hvalue, hreads⟩ := hc
  have hold (j : ι) (r : ℕ) (hr : c.reads j = some r) : r + k ≤ (c.apply op).total :=
    (hreads j r hr).trans htotal
  cases op with
  | skip => exact ⟨hvalue, hreads⟩
  | load i =>
    constructor
    · exact hvalue
    · exact update_reads (fun j _ => hold j) (fun r hr => Option.some.inj hr ▸ hvalue)
  | store i n =>
    unfold Counter.apply at hold ⊢
    dsimp only at hold ⊢
    split
    · rename_i read hread
      rw [hread] at hold
      constructor
      · have := hreads i read hread
        rw [total, sum_update_add]
        dsimp only [total] at this ⊢
        omega
      · exact update_reads (fun j _ => hold j) (fun r hr => by cases hr)
    · exact ⟨hvalue, hreads⟩
  | add i n =>
    constructor
    · rw [total, Counter.apply, sum_update_add]
      dsimp only [total] at hvalue ⊢
      omega
    · exact hold

/-- The read of `i` is out of date. -/
def Stale (c : Counter ι) (i : ι) : Prop := ∃ r, c.reads i = some r ∧ r < c.total

/-- Writing while another process has read makes that read out of date. -/
theorem stale_of_store {c : Counter ι} {i j : ι} {n ri rj : ℕ} (hc : c.Lost 0) (hn : 0 < n)
    (hi : c.reads i = some ri) (hj : c.reads j = some rj) (hji : j ≠ i) :
    (c.apply (.store i n)).Stale j := by
  have hle := hc.2 j rj hj
  unfold Counter.apply Stale
  dsimp only
  rw [hi]
  refine ⟨rj, ?_, ?_⟩
  · dsimp only
    rw [update_of_ne hji, hj]
  · rw [total, sum_update_add]
    exact hle.trans_lt (Nat.lt_add_of_pos_right hn)

/-- A process with an outdated read stays so, until it writes it back and something is lost. -/
theorem Stale.apply {c : Counter ι} {i : ι} {op : Op ι} (hs : c.Stale i) (hc : c.Lost 0)
    (hload : op ≠ .load i) (hpos : ∀ j n, op = .store j n → 0 < n) :
    (c.apply op).Stale i ∨ (c.apply op).Lost 1 := by
  obtain ⟨r, hr, hlt⟩ := hs
  have htotal := (total_apply c op).1
  cases op with
  | skip => exact .inl ⟨r, hr, hlt⟩
  | load j =>
    have hij : i ≠ j := fun heq => hload (congrArg Op.load heq.symm)
    exact .inl ⟨r, (update_of_ne hij ..).trans hr, hlt⟩
  | store j n =>
    by_cases hij : i = j
    · subst hij
      have hn := hpos i n rfl
      right
      unfold Counter.apply
      dsimp only
      rw [hr]
      constructor
      · rw [total, sum_update_add]
        exact Nat.add_lt_add_right hlt n
      · rw [total, sum_update_add]
        apply update_reads
        · intro k _ rk hk
          exact Nat.add_le_add (hc.2 k rk hk) hn
        · intro rk hk
          cases hk
    · left
      refine ⟨r, ?_, hlt.trans_le htotal⟩
      unfold Counter.apply
      dsimp only
      split
      · exact (update_of_ne hij ..).trans hr
      · exact hr
  | add j n => exact .inl ⟨r, hr, hlt.trans_le htotal⟩

end Counter
end RethinkDB.Lib
