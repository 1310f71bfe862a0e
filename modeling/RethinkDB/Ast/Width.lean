import Mathlib.Tactic.Tauto
import RethinkDB.Ast.Composition

/-! Which queries are printed in items of one character. -/
namespace RethinkDB.Ast.Printer
open RethinkDB.Lib

variable {α β : Type} {repr : List Char → List Char}

/-- A statement between two spaces is one item. -/
def Class.isWide : Class → Bool
  | biOper op => op.statement.length ≠ 1
  | _ => false

/-- The arguments that a class's text is composed of. -/
def shown (cls : Class) (args : List α) (optargs : List (List Char × α)) : List α :=
  let all := args ++ optargs.map Prod.snd
  let ofMethod := if args = [] then [] else all
  match cls with
  | .datum _ | .implicitVar | .binaryData => []
  | .makeArray | .boolOper .. | .biOper _ | .funCall => args
  | .makeObj => optargs.map Prod.snd
  | .var | .not => args.take 1
  | .topLevel _ | .table => all
  | .method _ => ofMethod
  | .bracket _ bracketOperator => if bracketOperator then args else ofMethod
  | .slice bracketOperator => if bracketOperator then args.take 3 else ofMethod
  | .func _ => (args.drop 1).take 1

mutual

/-- A comparison by a statement of two characters is shown between its arguments. -/
def wide : Term → Bool
  | .node cls args optargs =>
    (cls.isWide && 2 ≤ args.length) || (shown cls (wideArgs args) (wideOptargs optargs)).any id

def wideArgs : List Term → List Bool
  | [] => []
  | arg :: args => wide arg :: wideArgs args

def wideOptargs : List (List Char × Term) → List (List Char × Bool)
  | [] => []
  | (key, arg) :: optargs => (key, wide arg) :: wideOptargs optargs

end

/-! ### Items of one character -/

def Narrow (t : T Token) : Prop := ∀ token ∈ tokens t, token.length = 1

@[simp]
theorem narrow_str (s : List Char) : Narrow (.str s) := by
  intro token htoken
  obtain ⟨c, -, hc⟩ := List.mem_flatMap.mp htoken
  rw [List.mem_singleton.mp hc]
  rfl

@[simp]
theorem narrow_text (s : String) : Narrow (text s) := narrow_str _

/-- The items between the texts of a sequence. -/
def Intsp.Narrow (intsp : Intsp) : Prop :=
  ∀ token ∈ intsp.iter fun token => [token], token.length = 1

theorem narrow_rest (intsp : Intsp) (ts : List (T Token)) :
    (∀ token ∈ iterRest (fun token => [token]) (intsp.iter fun token => [token]) ts,
      token.length = 1) ↔ ∀ t ∈ ts, intsp.Narrow ∧ Narrow t := by
  induction ts with
  | nil => simp [iterRest]
  | cons t ts ih =>
    rw [iterRest, List.forall_mem_cons, ← ih]
    simp only [List.mem_append, or_imp, forall_and]
    rfl

theorem narrow_seq (ts : List (T Token)) (intsp : Intsp) :
    Narrow (.seq ts intsp) ↔ (∀ t ∈ ts, Narrow t) ∧ (2 ≤ ts.length → intsp.Narrow) := by
  change (∀ token ∈ iterSeq (fun token => [token]) (intsp.iter fun token => [token]) ts,
    token.length = 1) ↔ _
  cases ts with
  | nil => simp [iterSeq]
  | cons t ts =>
    rw [iterSeq, List.forall_mem_append, narrow_rest, List.forall_mem_cons]
    change Narrow t ∧ _ ↔ _
    cases ts with
    | nil => simp
    | cons t' ts =>
      rw [List.forall_mem_cons, List.forall_mem_cons]
      constructor
      · rintro ⟨ht, ⟨hintsp, ht'⟩, hts⟩
        exact ⟨⟨ht, ht', fun t ht => (hts t ht).2⟩, fun _ => hintsp⟩
      · rintro ⟨⟨ht, ht', hts⟩, hintsp⟩
        have hintsp := hintsp (by simp)
        exact ⟨ht, ⟨hintsp, ht'⟩, fun t ht => ⟨hintsp, hts t ht⟩⟩

theorem intsp_str_narrow (s : List Char) : (Intsp.str s).Narrow := narrow_str s

@[simp]
theorem narrow_cat (ts : List (T Token)) : Narrow (.cat ts) ↔ ∀ t ∈ ts, Narrow t := by
  simp [T.cat, narrow_seq, intsp_str_narrow]

@[simp]
theorem narrow_commas (ts : List (T Token)) : Narrow (.commas ts) ↔ ∀ t ∈ ts, Narrow t := by
  simp [T.commas, narrow_seq, intsp_str_narrow]

@[simp]
theorem narrow_wrapIf (wrap : Bool) (t : T Token) : Narrow (wrapIf wrap t) ↔ Narrow t := by
  unfold wrapIf
  split_ifs <;> simp

theorem narrow_wrapped {selfArgs : List Class} {args : List (T Token)}
    (h : selfArgs.length = args.length) :
    (wrapped selfArgs args).length = args.length ∧
      ((∀ t ∈ wrapped selfArgs args, Narrow t) ↔ ∀ t ∈ args, Narrow t) := by
  induction args generalizing selfArgs with
  | nil => simp [wrapped]
  | cons arg args ih =>
    cases selfArgs with
    | nil => simp at h
    | cons cls selfArgs =>
      obtain ⟨hlength, hnarrow⟩ := ih (Nat.succ.inj h)
      unfold wrapped at hlength hnarrow ⊢
      simp [List.zipWith_cons_cons, hlength, hnarrow]

theorem narrow_keyed (optargs : List (List Char × T Token)) :
    (∀ t ∈ keyed optargs, Narrow t) ↔ ∀ t ∈ optargs.map Prod.snd, Narrow t := by
  unfold keyed
  rw [List.forall_mem_map, List.forall_mem_map]
  simp

theorem composeMethod_narrow {statement : String} {selfArgs : List Class} {args : List (T Token)}
    {optargs : List (List Char × T Token)} {t : T Token} (hlength : selfArgs.length = args.length)
    (h : composeMethod statement selfArgs args optargs = .ok t) :
    Narrow t ↔ ∀ a ∈ shown (.method statement) args optargs, Narrow a := by
  cases args with
  | nil =>
    cases List.length_eq_zero_iff.mp hlength
    cases h
    simp [shown]
  | cons arg args =>
    cases selfArgs with
    | nil => cases hlength
    | cons cls selfArgs =>
      cases h
      simp [shown, narrow_keyed, or_imp, forall_and]

theorem compose_narrow {cls : Class} {selfArgs : List Class} {args : List (T Token)}
    {optargs : List (List Char × T Token)} {t : T Token} (hlength : selfArgs.length = args.length)
    (h : compose repr concatVar cls selfArgs args optargs = .ok t) :
    Narrow t ↔ (cls.isWide && 2 ≤ args.length) = false ∧
      ∀ a ∈ shown cls args optargs, Narrow a := by
  obtain ⟨hwrapped, hnarrow⟩ := narrow_wrapped hlength
  cases cls with
  | datum data | implicitVar | binaryData =>
    cases h
    simp [Class.isWide, shown]
  | makeArray =>
    cases h
    simp [Class.isWide, shown]
  | makeObj =>
    cases h
    simp only [narrow_cat, List.forall_mem_cons, narrow_text, narrow_commas, List.forall_mem_map,
      narrow_str, Class.isWide, shown]
    simp only [List.not_mem_nil, Bool.false_and, true_and, false_imp_iff, implies_true, and_true]
  | var =>
    cases args with
    | nil => cases h
    | cons arg args =>
      cases arg with
      | list items => cases h
      | seq ts intsp => cases h
      | str s =>
        cases h
        simp [Class.isWide, shown]
  | not =>
    cases selfArgs with
    | nil => cases h
    | cons cls selfArgs =>
      cases args with
      | nil => cases h
      | cons arg args =>
        cases h
        simp [Class.isWide, shown]
  | boolOper op isInfix =>
    cases isInfix with
    | true =>
      simp only [compose, if_true] at h
      cases hchar : op.stInfix with
      | none =>
        rw [hchar] at h
        cases h
      | some c =>
        rw [hchar] at h
        cases h
        have hintsp : (Intsp.list [[' '], [c], [' ']]).Narrow := by simp [Intsp.Narrow, Intsp.iter]
        simp [narrow_seq, hnarrow, hintsp, Class.isWide, shown]
    | false =>
      cases h
      simp only [narrow_cat, List.forall_mem_cons, narrow_text, narrow_commas, hnarrow]
      simp [Class.isWide, shown]
  | biOper op =>
    cases h
    have hintsp : (Intsp.list [[' '], op.statement.toList, [' ']]).Narrow ↔
        op.statement.length = 1 := by
      simp [Intsp.Narrow, Intsp.iter, String.length_toList]
    have hwide : (Class.isWide (.biOper op) && 2 ≤ args.length) = false ↔
        (2 ≤ args.length → op.statement.length = 1) := by
      simp only [Class.isWide, Bool.and_eq_false_iff, decide_eq_false_iff_not]
      tauto
    simp only [narrow_cat, List.forall_mem_cons, narrow_text, narrow_seq, hnarrow, hwrapped, hintsp,
      hwide, shown]
    simp only [List.not_mem_nil, false_imp_iff, implies_true, true_and, and_true, and_comm]
  | topLevel statement =>
    cases h
    simp [Class.isWide, shown, narrow_keyed, or_imp, forall_and]
  | method statement => simpa [Class.isWide] using composeMethod_narrow hlength h
  | bracket statement bracketOperator =>
    cases bracketOperator with
    | false =>
      have hmethod := composeMethod_narrow hlength h
      exact ⟨fun ht => ⟨rfl, hmethod.mp ht⟩, fun ht => hmethod.mpr ht.2⟩
    | true =>
      cases selfArgs with
      | nil => cases h
      | cons cls selfArgs =>
        cases args with
        | nil => cases h
        | cons arg args =>
          cases h
          have hintsp : (Intsp.list [[',']]).Narrow := by simp [Intsp.Narrow, Intsp.iter]
          simp [narrow_seq, hintsp, Class.isWide, shown]
  | slice bracketOperator =>
    cases bracketOperator with
    | false =>
      have hmethod := composeMethod_narrow hlength h
      exact ⟨fun ht => ⟨rfl, hmethod.mp ht⟩, fun ht => hmethod.mpr ht.2⟩
    | true =>
      cases selfArgs with
      | nil => cases h
      | cons cls selfArgs =>
        rcases args with _ | ⟨arg, _ | ⟨start, _ | ⟨stop, args⟩⟩⟩
        · cases h
        · cases h
        · cases h
        · cases h
          simp [Class.isWide, shown]
  | funCall =>
    rcases args with _ | ⟨fn, _ | ⟨arg, _ | ⟨third, args⟩⟩⟩
    · obtain rfl := List.length_eq_zero_iff.mp hlength
      cases h
    · obtain ⟨cls, rfl⟩ := List.length_eq_one_iff.mp hlength
      cases h
      simp [Class.isWide, shown, and_comm]
    · obtain ⟨fnCls, cls, rfl⟩ := List.length_eq_two.mp hlength
      cases h
      simp [Class.isWide, shown, and_comm]
    · rcases selfArgs with _ | ⟨fnCls, _ | ⟨cls, _ | ⟨thirdCls, selfArgs⟩⟩⟩
      · simp at hlength
      · simp at hlength
      · simp at hlength
      · cases h
        simp [Class.isWide, shown, and_comm]
  | table =>
    cases selfArgs with
    | nil => cases h
    | cons cls selfArgs =>
      cases args with
      | nil => cases h
      | cons arg args =>
        simp only [compose] at h
        split_ifs at h
        · cases h
          simp [Class.isWide, shown, narrow_keyed, or_imp, forall_and]
        · cases h
          simp [Class.isWide, shown, narrow_keyed, or_imp, forall_and]
  | func vrs =>
    rcases args with _ | ⟨vars, _ | ⟨body, args⟩⟩
    · cases h
    · cases h
    · cases h
      simp [Class.isWide, shown]

/-! ### Queries printed in items of one character -/

theorem rel_values {R : α → β → Prop} {optargs : List (List Char × α)}
    {optargs' : List (List Char × β)}
    (h : List.Forall₂ (fun o o' => R o.2 o'.2) optargs optargs') :
    List.Forall₂ R (optargs.map Prod.snd) (optargs'.map Prod.snd) := by
  induction h with
  | nil => exact .nil
  | cons h _ ih => exact .cons h ih

theorem shown_rel {R : α → β → Prop} (cls : Class) {args : List α} {args' : List β}
    {optargs : List (List Char × α)} {optargs' : List (List Char × β)}
    (hargs : List.Forall₂ R args args')
    (hopts : List.Forall₂ (fun o o' => R o.2 o'.2) optargs optargs') :
    List.Forall₂ R (shown cls args optargs) (shown cls args' optargs') := by
  have hall := List.rel_append hargs (rel_values hopts)
  have hmethod : List.Forall₂ R (if args = [] then [] else args ++ optargs.map Prod.snd)
      (if args' = [] then [] else args' ++ optargs'.map Prod.snd) := by
    cases hargs with
    | nil => exact .nil
    | cons h hargs => exact hall
  cases cls with
  | datum data | implicitVar | binaryData => exact .nil
  | makeArray | boolOper op isInfix | biOper op | funCall => exact hargs
  | makeObj => exact rel_values hopts
  | var | not => exact List.forall₂_take 1 hargs
  | topLevel statement | table => exact hall
  | method statement => exact hmethod
  | bracket statement bracketOperator =>
    cases bracketOperator with
    | true => exact hargs
    | false => exact hmethod
  | slice bracketOperator =>
    cases bracketOperator with
    | true => exact List.forall₂_take 3 hargs
    | false => exact hmethod
  | func vrs => exact List.forall₂_take 1 (List.forall₂_drop 1 hargs)

theorem rel_any {R : α → Bool → Prop} {P : α → Prop} {xs : List α} {ys : List Bool}
    (h : List.Forall₂ R xs ys) (hR : ∀ x y, R x y → (P x ↔ y = false)) :
    (∀ x ∈ xs, P x) ↔ ys.any id = false := by
  induction h with
  | nil => simp
  | cons h _ ih => simp [hR _ _ h, ih]

/-- `t` is in items of one character unless `isWide`. -/
def WideText (t : T Token) (isWide : Bool) : Prop := Narrow t ↔ isWide = false

theorem wideArgs_length (args : List Term) : (wideArgs args).length = args.length := by
  induction args with
  | nil => rfl
  | cons arg args ih => rw [wideArgs, List.length_cons, List.length_cons, ih]

mutual

theorem composeTerm_wide (term : Term) (t : T Token) (h : composeTerm repr term = .ok t) :
    WideText t (wide term) := by
  cases term with
  | node cls args optargs =>
    obtain ⟨composed, hcomposed, h⟩ := bind_eq_ok.mp h
    obtain ⟨composedOptargs, hoptargs, h⟩ := bind_eq_ok.mp h
    have hargs := composeArgs_wide args composed hcomposed
    have hopts := composeOptargs_wide optargs composedOptargs hoptargs
    have hlength : composed.length = args.length := by rw [hargs.length_eq, wideArgs_length]
    have hcompose := compose_narrow (by rw [List.length_map, hlength]) h
    unfold WideText wide
    rw [hcompose, Bool.or_eq_false_iff, hlength, rel_any (shown_rel cls hargs hopts) fun _ _ h => h]

theorem composeArgs_wide (args : List Term) (composed : List (T Token))
    (h : composeArgs repr args = .ok composed) :
    List.Forall₂ WideText composed (wideArgs args) := by
  cases args with
  | nil =>
    cases h
    exact .nil
  | cons arg args =>
    obtain ⟨t, ht, h⟩ := bind_eq_ok.mp h
    obtain ⟨ts, hts, h⟩ := bind_eq_ok.mp h
    cases h
    exact .cons (composeTerm_wide arg t ht) (composeArgs_wide args ts hts)

theorem composeOptargs_wide (optargs : List (List Char × Term))
    (composed : List (List Char × T Token)) (h : composeOptargs repr optargs = .ok composed) :
    List.Forall₂ (fun o o' => WideText o.2 o'.2) composed (wideOptargs optargs) := by
  cases optargs with
  | nil =>
    cases h
    exact .nil
  | cons o optargs =>
    obtain ⟨t, ht, h⟩ := bind_eq_ok.mp h
    obtain ⟨ts, hts, h⟩ := bind_eq_ok.mp h
    cases h
    exact .cons (composeTerm_wide o.2 t ht) (composeOptargs_wide optargs ts hts)

end

end RethinkDB.Ast.Printer
