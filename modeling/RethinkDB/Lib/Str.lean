import Mathlib.Algebra.Group.Nat.Defs
import Mathlib.Data.List.DropRight
import Mathlib.Tactic.SplitIfs

/-! Operations of Python's `str`, on the characters of one. -/
namespace RethinkDB.Lib.Str

def isSpace (c : Char) : Bool :=
  let n := c.toNat
  (9 ≤ n ∧ n ≤ 13) ∨ (28 ≤ n ∧ n ≤ 32) ∨ (0x2000 ≤ n ∧ n ≤ 0x200a) ∨
    n ∈ [0x85, 0xa0, 0x1680, 0x2028, 0x2029, 0x202f, 0x205f, 0x3000]

def strip (cs : List Char) : List Char := (cs.dropWhile isSpace).rdropWhile isSpace

/-- ASCII digits, with single underscores between them. -/
def toNat (cs : List Char) : Option ℕ :=
  let groups := cs.splitOn '_'
  if ∀ g ∈ groups, g ≠ [] ∧ g.all Char.isDigit then some (Nat.ofDigitChars 10 groups.flatten 0)
  else none

/-- `int(cs)`, unless that is a `ValueError`. -/
def toInt (cs : List Char) : Option ℤ :=
  match strip cs with
  | '-' :: cs => (toNat cs).map fun n => -n
  | '+' :: cs => (toNat cs).map fun n => n
  | cs => (toNat cs).map fun n => n

/-- The last `width` decimal digits of `n`. -/
def pad : ℕ → ℕ → List Char
  | 0, _ => []
  | width + 1, n => pad width (n / 10) ++ [Nat.digitChar (n % 10)]

@[simp] theorem length_pad (width n : ℕ) : (pad width n).length = width := by
  induction width generalizing n with
  | zero => rfl
  | succ width ih => simp [pad, ih]

theorem isDigit_pad {width n : ℕ} {c : Char} (hc : c ∈ pad width n) : c.isDigit = true := by
  induction width generalizing n with
  | zero => cases hc
  | succ width ih =>
    rw [pad, List.mem_append, List.mem_singleton] at hc
    cases hc with
    | inl hc => exact ih hc
    | inr hc =>
      rw [hc]
      rw [Nat.isDigit_digitChar]
      exact decide_eq_true (Nat.mod_lt n (by omega))

theorem ofDigitChars_pad {width n : ℕ} (hn : n < 10 ^ width) :
    Nat.ofDigitChars 10 (pad width n) 0 = n := by
  induction width generalizing n with
  | zero =>
    rw [Nat.pow_zero] at hn
    rw [pad, Nat.ofDigitChars_nil]
    omega
  | succ width ih =>
    have hdigit : n % 10 < 10 := Nat.mod_lt n (by omega)
    rw [pad, Nat.ofDigitChars_append, ih (by omega), Nat.ofDigitChars_cons_digitChar_of_lt_ten hdigit,
      Nat.ofDigitChars_nil]
    omega

/-! ### Reading fields of fixed width -/

/-- A number of `width` digits. -/
def field (width : ℕ) (cs : List Char) : Option (ℕ × List Char) :=
  let digits := cs.take width
  if digits.length = width ∧ digits.all Char.isDigit then
    some (Nat.ofDigitChars 10 digits 0, cs.drop width)
  else none

def skip (c : Char) : List Char → Option (List Char)
  | [] => none
  | d :: cs => if d = c then some cs else none

theorem field_pad {width n : ℕ} (hn : n < 10 ^ width) (cs : List Char) :
    field width (pad width n ++ cs) = some (n, cs) := by
  have htake : (pad width n ++ cs).take width = pad width n := List.take_left' (length_pad width n)
  have hdrop : (pad width n ++ cs).drop width = cs := List.drop_left' (length_pad width n)
  have hdigits : (pad width n).all Char.isDigit = true :=
    List.all_eq_true.mpr fun c hc => isDigit_pad hc
  simp only [field, htake, hdrop, hdigits, length_pad, and_self, if_true, ofDigitChars_pad hn]

theorem field_pad_end {width n : ℕ} (hn : n < 10 ^ width) : field width (pad width n) = some (n, []) := by
  have h := field_pad hn []
  rwa [List.append_nil] at h

@[simp] theorem skip_cons (c : Char) (cs : List Char) : skip c (c :: cs) = some cs := by
  simp [skip]

/-! ### Numbers in decimal -/

theorem isSpace_of_isDigit {c : Char} (hc : c.isDigit = true) : isSpace c = false := by
  have hcode : 48 ≤ c.toNat ∧ c.toNat ≤ 57 := by
    simpa [Char.isDigit, UInt32.le_iff_toNat_le] using hc
  unfold isSpace
  apply decide_eq_false
  simp only [List.mem_cons, List.not_mem_nil, or_false]
  omega

theorem strip_of_not_isSpace {cs : List Char} (hcs : ∀ c ∈ cs, isSpace c = false) :
    strip cs = cs := by
  have hdrop : ∀ ds : List Char, (∀ c ∈ ds, isSpace c = false) → ds.dropWhile isSpace = ds := by
    intro ds hds
    cases ds with
    | nil => rfl
    | cons d ds => simp [hds d (by simp)]
  rw [strip, hdrop cs hcs, List.rdropWhile, hdrop cs.reverse (by simpa using hcs), List.reverse_reverse]

theorem not_mem_of_isDigit {cs : List Char} {c : Char} (hcs : ∀ c ∈ cs, c.isDigit = true)
    (hc : c.isDigit = false) : c ∉ cs := by
  intro hmem
  have hdigit := hcs c hmem
  rw [hc] at hdigit
  cases hdigit

theorem toNat_digits {cs : List Char} (hne : cs ≠ []) (hcs : ∀ c ∈ cs, c.isDigit = true) :
    toNat cs = some (Nat.ofDigitChars 10 cs 0) := by
  have hgroups : cs.splitOn '_' = [cs] :=
    List.splitOn_eq_singleton (not_mem_of_isDigit hcs (by decide))
  simp only [toNat, hgroups]
  rw [if_pos (by simpa [hne] using hcs)]
  simp

theorem toInt_digits {cs : List Char} (hne : cs ≠ []) (hcs : ∀ c ∈ cs, c.isDigit = true) :
    toInt cs = some (Nat.ofDigitChars 10 cs 0) := by
  have hstrip : strip cs = cs := strip_of_not_isSpace fun c hc => isSpace_of_isDigit (hcs c hc)
  unfold toInt
  rw [hstrip]
  split
  · exact absurd (hcs '-' (by simp)) (by decide)
  · exact absurd (hcs '+' (by simp)) (by decide)
  · rw [toNat_digits hne hcs]
    rfl

theorem toInt_signed {sign : Char} (hsign : sign = '+' ∨ sign = '-') {cs : List Char} (hne : cs ≠ [])
    (hcs : ∀ c ∈ cs, c.isDigit = true) :
    toInt (sign :: cs) =
      some ((if sign = '-' then -1 else 1) * (Nat.ofDigitChars 10 cs 0 : ℤ)) := by
  have hspace : isSpace sign = false := by
    cases hsign with
    | inl hsign => rw [hsign]; decide
    | inr hsign => rw [hsign]; decide
  have hstrip : strip (sign :: cs) = sign :: cs := by
    apply strip_of_not_isSpace
    rw [List.forall_mem_cons]
    exact ⟨hspace, fun c hc => isSpace_of_isDigit (hcs c hc)⟩
  unfold toInt
  rw [hstrip]
  cases hsign with
  | inl hsign => simp [hsign, toNat_digits hne hcs]
  | inr hsign => simp [hsign, toNat_digits hne hcs]

theorem not_mem_splitOn {sep : Char} {cs part : List Char} (h : part ∈ cs.splitOn sep) : sep ∉ part := by
  induction cs generalizing part with
  | nil =>
    rw [List.splitOn_nil, List.mem_singleton] at h
    rw [h]
    exact List.not_mem_nil
  | cons c cs ih =>
    rw [List.splitOn_cons_eq_if_modifyHead] at h
    split_ifs at h with hc
    · cases List.mem_cons.mp h with
      | inl h => rw [h]; exact List.not_mem_nil
      | inr h => exact ih h
    · obtain ⟨head, rest, hsplit⟩ := List.exists_cons_of_ne_nil (List.splitOn_ne_nil sep cs)
      rw [hsplit] at h ih
      cases List.mem_cons.mp h with
      | inl h =>
        have hne : sep ≠ c := fun heq => hc (beq_iff_eq.mpr heq.symm)
        rw [h, List.mem_cons, not_or]
        exact ⟨hne, ih (by simp)⟩
      | inr h => exact ih (by simp [h])

/-- A text of lines is split into them. -/
theorem splitOn_flatMap {sep : Char} {first : List Char} {parts : List (List Char)} (hfirst : sep ∉ first)
    (hparts : ∀ part ∈ parts, sep ∉ part) :
    (first ++ parts.flatMap (sep :: ·)).splitOn sep = first :: parts := by
  induction parts generalizing first with
  | nil =>
    rw [List.flatMap_nil, List.append_nil]
    exact List.splitOn_eq_singleton hfirst
  | cons part parts ih =>
    obtain ⟨hpart, hparts⟩ := List.forall_mem_cons.mp hparts
    rw [List.flatMap_cons, List.cons_append, List.splitOn_append_cons_self_of_not_mem hfirst,
      ih hpart hparts]

end RethinkDB.Lib.Str
