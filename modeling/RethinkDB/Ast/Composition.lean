import Mathlib.Data.List.Forall2
import RethinkDB.Ast.Printer

/-! Texts of the same query that are put together of different items. -/
namespace RethinkDB.Ast.Printer
open RethinkDB.Lib

variable {α β γ : Type} {repr : List Char → List Char}

/-! ### Texts that are put together alike -/

/-- Where the one returns, the other returns something related. -/
def Simulates {ε : Type} (R : α → β → Prop) (x : Except ε α) (y : Except ε β) : Prop :=
  ∀ a, x = .ok a → ∃ b, y = .ok b ∧ R a b

theorem Simulates.bind {ε δ : Type} {R : α → β → Prop} {S : γ → δ → Prop} {x : Except ε α}
    {y : Except ε β} {f : α → Except ε γ} {g : β → Except ε δ} (h : Simulates R x y)
    (hfg : ∀ a b, R a b → Simulates S (f a) (g b)) : Simulates S (x >>= f) (y >>= g) := by
  intro c hc
  obtain ⟨a, ha, hc⟩ := bind_eq_ok.mp hc
  obtain ⟨b, hb, hR⟩ := h a ha
  obtain ⟨d, hd, hS⟩ := hfg a b hR c hc
  exact ⟨d, bind_eq_ok.mpr ⟨b, hb, hd⟩, hS⟩

theorem Simulates.ok {ε : Type} {R : α → β → Prop} {a : α} {b : β} (h : R a b) :
    Simulates R (.ok a : Except ε α) (.ok b) := by
  intro a' ha
  cases ha
  exact ⟨b, rfl, h⟩

theorem Simulates.error {ε : Type} {R : α → β → Prop} {e : ε} {y : Except ε β} :
    Simulates R (.error e : Except ε α) y := by
  intro a ha
  cases ha

theorem Simulates.mono {ε : Type} {R S : α → β → Prop} {x : Except ε α} {y : Except ε β}
    (h : Simulates R x y) (hRS : ∀ a b, R a b → S a b) : Simulates S x y := by
  intro a ha
  obtain ⟨b, hb, hR⟩ := h a ha
  exact ⟨b, hb, hRS a b hR⟩

theorem Simulates.map {ε γ' : Type} {R : α → β → Prop} {S : γ → γ' → Prop} {x : Except ε α}
    {y : Except ε β} {f : α → γ} {g : β → γ'} (h : Simulates R x y)
    (hfg : ∀ a b, R a b → S (f a) (g b)) : Simulates S (x.map f) (y.map g) := by
  intro c hc
  obtain ⟨a, ha, hc⟩ := map_eq_ok.mp hc
  obtain ⟨b, hb, hR⟩ := h a ha
  exact ⟨g b, map_eq_ok.mpr ⟨b, hb, rfl⟩, hc ▸ hfg a b hR⟩

theorem Simulates.mapM {ε : Type} {R : β → γ → Prop} {f : α → Except ε β} {g : α → Except ε γ}
    {xs : List α} (h : ∀ x ∈ xs, Simulates R (f x) (g x)) :
    Simulates (List.Forall₂ R) (xs.mapM f) (xs.mapM g) := by
  intro ys hys
  rw [mapM_eq_ok] at hys
  induction hys with
  | nil => exact ⟨[], rfl, .nil⟩
  | cons hy _ ih =>
    obtain ⟨z, hz, hR⟩ := h _ (by simp) _ hy
    obtain ⟨zs, hzs, hRs⟩ := ih fun x hx => h x (by simp [hx])
    exact ⟨z :: zs, mapM_eq_ok.mpr (.cons hz (mapM_eq_ok.mp hzs)), .cons hR hRs⟩

/-- No token of a separator is empty. -/
def Intsp.Proper (intsp : Intsp) : Prop := ∀ token ∈ intsp.iter fun token => [token], token ≠ []

theorem intsp_str_proper (s : List Char) : (Intsp.str s).Proper := by
  intro token htoken
  obtain ⟨c, -, hc⟩ := List.mem_flatMap.mp htoken
  rw [List.mem_singleton.mp hc]
  exact List.cons_ne_nil c []

theorem statement_proper (op : BiOp) :
    (Intsp.list [[' '], op.statement.toList, [' ']]).Proper := by
  cases op <;> simp [Intsp.Proper, Intsp.iter, BiOp.statement]

/-- A relation that the texts composed alike of related ones keep. -/
structure Congruent (R : T α → T β → Prop) : Prop where
  str : ∀ s, R (.str s) (.str s)
  seq : ∀ {ts ts' intsp}, intsp.Proper → List.Forall₂ R ts ts' → R (.seq ts intsp) (.seq ts' intsp)

def Keyed (R : T α → T β → Prop) (o : List Char × T α) (o' : List Char × T β) : Prop :=
  o.1 = o'.1 ∧ R o.2 o'.2

def Alike (R : T α → T β → Prop) (p : List (T α) × List (List Char × T α))
    (p' : List (T β) × List (List Char × T β)) : Prop :=
  List.Forall₂ R p.1 p'.1 ∧ List.Forall₂ (Keyed R) p.2 p'.2

namespace Congruent
variable {R : T α → T β → Prop} (hR : Congruent R)
include hR

theorem text (s : String) : R (text s) (text s) := hR.str _

theorem cat {ts : List (T α)} {ts' : List (T β)} (h : List.Forall₂ R ts ts') :
    R (.cat ts) (.cat ts') := hR.seq (intsp_str_proper _) h

theorem commas {ts : List (T α)} {ts' : List (T β)} (h : List.Forall₂ R ts ts') :
    R (.commas ts) (.commas ts') := hR.seq (intsp_str_proper _) h

theorem wrapIf (wrap : Bool) {arg : T α} {arg' : T β} (h : R arg arg') :
    R (wrapIf wrap arg) (wrapIf wrap arg') := by
  unfold Printer.wrapIf
  split_ifs
  · exact hR.cat (.cons (hR.text _) (.cons h (.cons (hR.text _) .nil)))
  · exact h

theorem wrapped (selfArgs : List Class) {args : List (T α)} {args' : List (T β)}
    (h : List.Forall₂ R args args') :
    List.Forall₂ R (wrapped selfArgs args) (wrapped selfArgs args') := by
  induction h generalizing selfArgs with
  | nil => cases selfArgs <;> exact .nil
  | cons h _ ih =>
    cases selfArgs with
    | nil => exact .nil
    | cons cls selfArgs => exact .cons (hR.wrapIf _ h) (ih selfArgs)

omit hR in
theorem map {δ : Type} {S : γ → δ → Prop} {f : γ → T α} {g : δ → T β} {xs : List γ} {ys : List δ}
    (h : List.Forall₂ S xs ys) (hfg : ∀ x y, S x y → R (f x) (g y)) :
    List.Forall₂ R (xs.map f) (ys.map g) := by
  induction h with
  | nil => exact .nil
  | cons h _ ih => exact .cons (hfg _ _ h) ih

theorem keyed {optargs : List (List Char × T α)} {optargs' : List (List Char × T β)}
    (h : List.Forall₂ (Keyed R) optargs optargs') :
    List.Forall₂ R (keyed optargs) (keyed optargs') := by
  apply Congruent.map h
  intro o o' ⟨hkey, ho⟩
  rw [hkey]
  exact hR.cat (.cons (hR.str _) (.cons (hR.text _) (.cons ho .nil)))

/-- The arguments of a call in brackets. -/
theorem call {args : List (T α)} {args' : List (T β)} {optargs : List (List Char × T α)}
    {optargs' : List (List Char × T β)} (hargs : List.Forall₂ R args args')
    (hopts : List.Forall₂ (Keyed R) optargs optargs') :
    R (.commas (args ++ Printer.keyed optargs)) (.commas (args' ++ Printer.keyed optargs')) :=
  hR.commas (List.rel_append hargs (hR.keyed hopts))

theorem composeMethod (statement : String) (selfArgs : List Class) {args : List (T α)}
    {args' : List (T β)} {optargs : List (List Char × T α)} {optargs' : List (List Char × T β)}
    (hargs : List.Forall₂ R args args') (hopts : List.Forall₂ (Keyed R) optargs optargs') :
    Simulates R (composeMethod statement selfArgs args optargs)
      (composeMethod statement selfArgs args' optargs') := by
  have hempty : R (.cat [Printer.text "r.", Printer.text statement, Printer.text "()"])
      (.cat [Printer.text "r.", Printer.text statement, Printer.text "()"]) :=
    hR.cat (.cons (hR.text _) (.cons (hR.text _) (.cons (hR.text _) .nil)))
  cases selfArgs with
  | nil => exact .ok hempty
  | cons cls selfArgs =>
    cases hargs with
    | nil => exact .ok hempty
    | cons harg hrest =>
      exact .ok (hR.cat (.cons (hR.wrapIf _ harg) (.cons (hR.text _) (.cons (hR.text _)
        (.cons (hR.text _) (.cons (hR.call hrest hopts) (.cons (hR.text _) .nil)))))))

end Congruent

section Simulation
variable {R : T α → T β → Prop} (hR : Congruent R)
include hR

theorem compose_simulates {var : T α → Except PrintExn (T α)} {var' : T β → Except PrintExn (T β)}
    (cls : Class) (selfArgs : List Class) {args : List (T α)} {args' : List (T β)}
    {optargs : List (List Char × T α)} {optargs' : List (List Char × T β)}
    (hargs : List.Forall₂ R args args') (hopts : List.Forall₂ (Keyed R) optargs optargs')
    (hvar : cls = .var → ∀ arg ∈ args.head?, ∀ arg' ∈ args'.head?, R arg arg' →
      Simulates R (var arg) (var' arg')) :
    Simulates R (compose repr var cls selfArgs args optargs)
      (compose repr var' cls selfArgs args' optargs') := by
  cases cls with
  | datum data => exact .ok (hR.str _)
  | makeArray =>
    exact .ok (hR.cat (.cons (hR.text _) (.cons (hR.commas hargs) (.cons (hR.text _) .nil))))
  | makeObj =>
    refine .ok (hR.cat (.cons (hR.text _) (.cons (hR.commas (Congruent.map hopts ?_))
      (.cons (hR.text _) .nil))))
    intro o o' ⟨hkey, ho⟩
    rw [hkey]
    exact hR.cat (.cons (hR.str _) (.cons (hR.text _) (.cons ho .nil)))
  | var =>
    cases hargs with
    | nil => exact .error
    | cons harg hrest => exact hvar rfl _ rfl _ rfl harg
  | implicitVar => exact .ok (hR.text _)
  | not =>
    cases selfArgs with
    | nil => exact .error
    | cons cls selfArgs =>
      cases hargs with
      | nil => exact .error
      | cons harg hrest =>
        exact .ok (hR.cat (.cons (hR.text _) (.cons (hR.wrapIf _ harg)
          (.cons (hR.text _) .nil))))
  | boolOper op isInfix =>
    have hwrapped := hR.wrapped selfArgs hargs
    cases isInfix with
    | true =>
      simp only [compose, if_true]
      cases op.stInfix with
      | none => exact .error
      | some c =>
        have hproper : (Intsp.list [[' '], [c], [' ']]).Proper := by simp [Intsp.Proper, Intsp.iter]
        exact .ok (hR.cat (.cons (hR.text _) (.cons (hR.seq hproper hwrapped)
          (.cons (hR.text _) .nil))))
    | false =>
      exact .ok (hR.cat (.cons (hR.text _) (.cons (hR.text _) (.cons (hR.text _)
        (.cons (hR.commas hwrapped) (.cons (hR.text _) .nil))))))
  | biOper op =>
    exact .ok (hR.cat (.cons (hR.text _) (.cons (hR.seq (statement_proper op)
      (hR.wrapped selfArgs hargs)) (.cons (hR.text _) .nil))))
  | topLevel statement =>
    exact .ok (hR.cat (.cons (hR.text _) (.cons (hR.text _) (.cons (hR.text _)
      (.cons (hR.call hargs hopts) (.cons (hR.text _) .nil))))))
  | method statement => exact hR.composeMethod statement selfArgs hargs hopts
  | bracket statement bracketOperator =>
    cases bracketOperator with
    | false => exact hR.composeMethod statement selfArgs hargs hopts
    | true =>
      cases selfArgs with
      | nil => exact .error
      | cons cls selfArgs =>
        cases hargs with
        | nil => exact .error
        | cons harg hrest =>
          have hproper : (Intsp.list [[',']]).Proper := by simp [Intsp.Proper, Intsp.iter]
          exact .ok (hR.cat (.cons (hR.wrapIf _ harg) (.cons (hR.text _)
            (.cons (hR.seq hproper hrest) (.cons (hR.text _) .nil)))))
  | slice bracketOperator =>
    cases bracketOperator with
    | false => exact hR.composeMethod "slice" selfArgs hargs hopts
    | true =>
      cases selfArgs with
      | nil => exact .error
      | cons cls selfArgs =>
        cases hargs with
        | nil => exact .error
        | cons harg hrest =>
          cases hrest with
          | nil => exact .error
          | cons hstart hrest =>
            cases hrest with
            | nil => exact .error
            | cons hstop hrest =>
              exact .ok (hR.cat (.cons (hR.wrapIf _ harg) (.cons (hR.text _) (.cons hstart
                (.cons (hR.text _) (.cons hstop (.cons (hR.text _) .nil)))))))
  | funCall =>
    cases hargs with
    | nil =>
      match selfArgs with
      | [] | [_] | [_, _] | _ :: _ :: _ :: _ => exact .error
    | cons hfn hrest =>
      have hdo : Simulates (ε := PrintExn) R
          (.ok (.cat [Printer.text "r.do(", .commas [.commas _, _], Printer.text ")"]))
          (.ok (.cat [Printer.text "r.do(", .commas [.commas _, _], Printer.text ")"])) :=
        .ok (hR.cat (.cons (hR.text _) (.cons (hR.commas (.cons (hR.commas hrest)
          (.cons hfn .nil))) (.cons (hR.text _) .nil))))
      match selfArgs, hrest with
      | [], _ | [_], _ | _ :: _ :: _ :: _, _ => exact hdo
      | [_, _], .nil | [_, _], .cons _ (.cons _ _) => exact hdo
      | [_, cls], .cons harg .nil =>
        exact .ok (hR.cat (.cons (hR.wrapIf _ harg) (.cons (hR.text _) (.cons hfn
          (.cons (hR.text _) .nil)))))
  | table =>
    cases selfArgs with
    | nil => exact .error
    | cons cls selfArgs =>
      cases hargs with
      | nil => exact .error
      | cons harg hrest =>
        have htail := List.rel_append hrest (hR.keyed hopts)
        simp only [compose]
        cases cls.isDB with
        | true =>
          exact .ok (hR.cat (.cons harg (.cons (hR.text _) (.cons (hR.commas htail)
            (.cons (hR.text _) .nil)))))
        | false =>
          exact .ok (hR.cat (.cons (hR.text _) (.cons (hR.commas (.cons harg htail))
            (.cons (hR.text _) .nil))))
  | func vrs =>
    cases hargs with
    | nil => exact .error
    | cons harg hrest =>
      cases hrest with
      | nil => exact .error
      | cons hbody hrest =>
        have hnames : List.Forall₂ R (vrs.map fun id => T.str ("var_".toList ++ id))
            (vrs.map fun id => T.str ("var_".toList ++ id)) := by
          apply Congruent.map (S := Eq) (List.forall₂_same.mpr fun _ _ => rfl)
          intro id id' hid
          rw [hid]
          exact hR.str _
        exact .ok (hR.cat (.cons (hR.text _) (.cons (hR.commas hnames) (.cons (hR.text _)
          (.cons hbody .nil)))))
  | binaryData =>
    exact .ok (hR.cat (.cons (hR.text _) (.cons (hR.text _) (.cons (hR.text _) .nil))))

end Simulation

def Frame.targets (args : List Term) (optargs : List (List Char × Term)) : Frame → List Term
  | pos i => if 0 ≤ i then args[i.toNat]?.toList else []
  | opt key => (optargs.filter fun o => o.1 = key).map Prod.snd

theorem Frame.mem_targets_pos {args : List Term} {optargs : List (List Char × Term)} {arg : Term}
    {i : ℤ} : arg ∈ targets args optargs (pos i) ↔ ∃ n : ℕ, (n : ℤ) = i ∧ args[n]? = some arg := by
  rw [targets]
  constructor
  · intro h
    split_ifs at h with hi
    · exact ⟨i.toNat, Int.toNat_of_nonneg hi, Option.mem_toList.mp h⟩
    · cases h
  · intro ⟨n, hn, harg⟩
    rw [← hn, if_pos (by omega)]
    exact Option.mem_toList.mpr harg

theorem composeAround_simulates {R : T α → T β → Prop} {target : Term → Except PrintExn (T α)}
    {target' : Term → Except PrintExn (T β)} {frame : Frame} {args : List Term}
    {optargs : List (List Char × Term)}
    (hterm : ∀ term, Simulates R (composeTerm repr term) (composeTerm repr term))
    (htarget : ∀ term ∈ frame.targets args optargs, Simulates R (target term) (target' term)) :
    Simulates (Alike R) (composeAround repr target frame args optargs)
      (composeAround repr target' frame args optargs) := by
  unfold composeAround
  apply Simulates.bind (R := List.Forall₂ R)
  · apply Simulates.mapM
    intro (arg, i) harg
    dsimp only
    split_ifs with hframe
    · apply htarget
      rw [hframe]
      exact Frame.mem_targets_pos.mpr ⟨i, rfl, List.mk_mem_zipIdx_iff_getElem?.mp harg⟩
    · exact hterm arg
  · intro composed composed' hcomposed
    apply Simulates.bind (R := List.Forall₂ (Keyed R))
    · apply Simulates.mapM
      intro (key, arg) ho
      dsimp only
      split_ifs with hframe
      · have harg : arg ∈ frame.targets args optargs := by
          rw [hframe]
          exact List.mem_map.mpr ⟨_, List.mem_filter.mpr ⟨ho, by simp⟩, rfl⟩
        exact .bind (htarget arg harg) fun _ _ h => .ok ⟨rfl, h⟩
      · exact .bind (hterm arg) fun _ _ h => .ok ⟨rfl, h⟩
    · intro composedOptargs composedOptargs' hoptargs
      exact .ok ⟨hcomposed, hoptargs⟩

/-- `R`, and a `str` is the same on both sides. -/
def Plain (R : T α → T β → Prop) (t : T α) (t' : T β) : Prop :=
  R t t' ∧ ∀ s, t = .str s → t' = .str s

theorem Congruent.plain {R : T α → T β → Prop} (hR : Congruent R) : Congruent (Plain R) := by
  constructor
  · intro s
    exact ⟨hR.str s, fun _ h => by cases h; rfl⟩
  · intro ts ts' intsp hproper h
    exact ⟨hR.seq hproper (h.imp fun _ _ h => h.1), fun _ h => by cases h⟩

theorem concatVar_simulates {R : T α → T β → Prop} (hR : Congruent R) {arg : T α} {arg' : T β}
    (h : Plain R arg arg') : Simulates (Plain R) (concatVar arg) (concatVar arg') := by
  cases arg with
  | str s =>
    rw [h.2 s rfl]
    exact .ok (hR.plain.str _)
  | list items => exact .error
  | seq ts intsp => exact .error

mutual

theorem composeTerm_plain {R : T α → T β → Prop} (hR : Congruent R) (term : Term) :
    Simulates (Plain R) (composeTerm repr term) (composeTerm repr term) := by
  cases term with
  | node cls args optargs =>
    unfold composeTerm
    refine .bind (composeArgs_plain hR args) fun composed composed' hargs => ?_
    refine .bind (composeOptargs_plain hR optargs) fun composedOpts composedOpts' hopts => ?_
    exact compose_simulates hR.plain cls _ hargs hopts fun _ _ _ _ _ h => concatVar_simulates hR h

theorem composeArgs_plain {R : T α → T β → Prop} (hR : Congruent R) (args : List Term) :
    Simulates (List.Forall₂ (Plain R)) (composeArgs repr args) (composeArgs repr args) := by
  cases args with
  | nil => exact .ok .nil
  | cons arg args =>
    unfold composeArgs
    refine .bind (composeTerm_plain hR arg) fun _ _ harg => ?_
    exact .bind (composeArgs_plain hR args) fun _ _ hargs => .ok (.cons harg hargs)

theorem composeOptargs_plain {R : T α → T β → Prop} (hR : Congruent R)
    (optargs : List (List Char × Term)) :
    Simulates (List.Forall₂ (Keyed (Plain R))) (composeOptargs repr optargs)
      (composeOptargs repr optargs) := by
  cases optargs with
  | nil => exact .ok .nil
  | cons o optargs =>
    unfold composeOptargs
    refine .bind (composeTerm_plain hR o.2) fun _ _ harg => ?_
    exact .bind (composeOptargs_plain hR optargs) fun _ _ hargs => .ok (.cons ⟨rfl, harg⟩ hargs)

end

/-! ### Painted items -/

section Items
variable {tok : Token → List α} {tok' : Token → List β} {g : α → List γ} {g' : β → List γ}

/-- Texts the items of which `g` and `g'` make the same of. -/
def SameItems (tok : Token → List α) (tok' : Token → List β) (g : α → List γ) (g' : β → List γ)
    (t : T α) (t' : T β) : Prop :=
  (t.iter tok).flatMap g = (t'.iter tok').flatMap g'

variable (htok : ∀ token, (tok token).flatMap g = (tok' token).flatMap g')
include htok

theorem iter_chars (s : List Char) :
    (s.flatMap fun c => tok [c]).flatMap g = (s.flatMap fun c => tok' [c]).flatMap g' := by
  simp only [List.flatMap_assoc, htok]

theorem Intsp.iter_same (intsp : Intsp) :
    (intsp.iter tok).flatMap g = (intsp.iter tok').flatMap g' := by
  cases intsp with
  | str s => exact iter_chars htok s
  | list tokens =>
    unfold Intsp.iter
    simp only [List.flatMap_assoc, htok]

theorem iterRest_same (intsp : Intsp) {ts : List (T α)} {ts' : List (T β)}
    (h : List.Forall₂ (SameItems tok tok' g g') ts ts') :
    (iterRest tok (intsp.iter tok) ts).flatMap g =
      (iterRest tok' (intsp.iter tok') ts').flatMap g' := by
  induction h with
  | nil => rfl
  | cons h _ ih =>
    unfold SameItems at h
    simp only [iterRest, List.flatMap_append, Intsp.iter_same htok intsp, h, ih]

theorem sameItems_congruent : Congruent (SameItems tok tok' g g') := by
  constructor
  · intro s
    exact iter_chars htok s
  · intro ts ts' intsp _ h
    unfold SameItems T.iter
    cases h with
    | nil => rfl
    | cons h hrest =>
      unfold SameItems at h
      rw [iterSeq, iterSeq, List.flatMap_append, List.flatMap_append, h,
        iterRest_same htok intsp hrest]

end Items

end RethinkDB.Ast.Printer
