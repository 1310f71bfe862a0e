import RethinkDB.Ast.Width
import RethinkDB.Lib.Text

/-! Where the carets of an error stand: the text of a query with the part marked that a backtrace
leads to, and what `print_carrots` makes of it. -/
namespace RethinkDB.Ast.Printer
open RethinkDB.Lib

/-! ### The text with its marks -/

variable {α β : Type} {repr : List Char → List Char}

def besideVar (arg : T α) : Except PrintExn (T α) := .ok (.cat [text "var_", arg])

/-- The text of a query; `item` makes the items of a token, and of whether it is in the part that
the frames lead to. -/
def locate (repr : List Char → List Char) (item : Token → Bool → List α) :
    List Frame → Term → Except PrintExn (List α)
  | [], term => do
    let t ← composeTerm repr term
    return (tokens t).flatMap fun token => item token true
  | frame :: frames, .node cls args optargs => do
    let target (arg : Term) := (locate repr item frames arg).map T.list
    let (composed, composedOptargs) ← composeAround repr target frame args optargs
    let t ← compose repr besideVar cls (args.map Term.cls) composed composedOptargs
    return t.iter fun token => item token false

/-- Each character, and whether it belongs to the part the frames lead to. -/
def markQuery (repr : List Char → List Char) (root : Term) (frames : List Frame) :
    Except PrintExn (List (Char × Bool)) :=
  locate repr (fun token mark => token.map fun c => (c, mark)) frames root

/-- There are carets under the part that the frames lead to, and blanks under the rest. -/
def Points (repr : List Char → List Char) (root : Term) (frames : List Frame) : Prop :=
  ∃ text marks, printQuery repr root = .ok text ∧ markQuery repr root frames = .ok marks ∧
    marks.map Prod.fst = text ∧
    printCarrots repr root frames = .ok (marks.map fun m => if m.2 then '^' else ' ')

/-! ### Paths into the argument of a variable -/

/-- The frames lead into the argument of a `Var`. -/
def entersVar : List Frame → Term → Bool
  | [], _ => false
  | frame :: frames, .node cls args optargs =>
    (cls = .var && frame = .pos 0) || (frame.targets args optargs).any (entersVar frames)

theorem composeArgs_eq (args : List Term) :
    composeArgs (α := α) repr args = args.mapM (composeTerm repr) := by
  induction args with
  | nil => rfl
  | cons arg args ih =>
    rw [List.mapM_cons, ← ih]
    rfl

theorem composeOptargs_eq (optargs : List (List Char × Term)) :
    composeOptargs (α := α) repr optargs =
      optargs.mapM fun o => do return (o.1, ← composeTerm repr o.2) := by
  induction optargs with
  | nil => rfl
  | cons o optargs ih =>
    rw [List.mapM_cons, ← ih, composeOptargs]
    cases composeTerm (α := α) repr o.2 with
    | error e => rfl
    | ok composed => rfl

theorem mapM_zipIdx (f : Term → Except PrintExn α) (args : List Term) (i : ℕ) :
    ((args.zipIdx i).mapM fun p => f p.1) = args.mapM f := by
  induction args generalizing i with
  | nil => rfl
  | cons arg args ih => rw [List.zipIdx_cons, List.mapM_cons, List.mapM_cons, ih]

theorem composeAround_term (frame : Frame) (args : List Term)
    (optargs : List (List Char × Term)) :
    composeAround (α := α) repr (composeTerm repr) frame args optargs =
      (do return (← composeArgs repr args, ← composeOptargs repr optargs)) := by
  simp only [composeAround, ite_self]
  rw [mapM_zipIdx, ← composeArgs_eq, ← composeOptargs_eq]

theorem composeTerm_around (frame : Frame) (cls : Class) (args : List Term)
    (optargs : List (List Char × Term)) :
    composeTerm (α := α) repr (.node cls args optargs) = (do
      let p ← composeAround repr (composeTerm repr) frame args optargs
      compose repr concatVar cls (args.map Term.cls) p.1 p.2) := by
  rw [composeAround_term, composeTerm]
  cases composeArgs (α := α) repr args with
  | error e => rfl
  | ok composed =>
    cases composeOptargs (α := α) repr optargs with
    | error e => rfl
    | ok composedOptargs => rfl

section Around
variable {target : Term → Except PrintExn (T α)} {frame : Frame} {args : List Term}
  {optargs : List (List Char × Term)} {p : List (T α) × List (List Char × T α)}

theorem composeAround_nil (h : composeAround repr target frame [] optargs = .ok p) : p.1 = [] := by
  obtain ⟨composed, hcomposed, h⟩ := bind_eq_ok.mp h
  obtain ⟨composedOptargs, -, h⟩ := bind_eq_ok.mp h
  cases h
  cases hcomposed
  rfl

theorem composeAround_head {arg : Term}
    (h : composeAround repr target frame (arg :: args) optargs = .ok p) :
    ∃ a rest, (if frame = .pos 0 then target arg else composeTerm repr arg) = .ok a ∧
      p.1 = a :: rest := by
  obtain ⟨composed, hcomposed, h⟩ := bind_eq_ok.mp h
  obtain ⟨composedOptargs, -, h⟩ := bind_eq_ok.mp h
  cases h
  rw [List.zipIdx_cons, mapM_eq_ok, List.forall₂_cons_left_iff] at hcomposed
  obtain ⟨a, rest, ha, -, hp⟩ := hcomposed
  exact ⟨a, rest, ha, hp⟩

theorem mapM_mem {ε γ δ : Type} {f : γ → Except ε δ} {xs : List γ} {ys : List δ}
    (h : xs.mapM f = .ok ys) {x : γ} (hx : x ∈ xs) : ∃ y, f x = .ok y := by
  rw [mapM_eq_ok] at h
  induction h with
  | nil => cases hx
  | cons hy _ ih =>
    cases hx with
    | head => exact ⟨_, hy⟩
    | tail _ hx => exact ih hx

/-- What a frame leads to has been composed. -/
theorem composeAround_target (h : composeAround repr target frame args optargs = .ok p)
    {arg : Term} (harg : arg ∈ frame.targets args optargs) : ∃ a, target arg = .ok a := by
  obtain ⟨composed, hcomposed, h⟩ := bind_eq_ok.mp h
  obtain ⟨composedOptargs, hoptargs, -⟩ := bind_eq_ok.mp h
  cases frame with
  | pos i =>
    obtain ⟨n, hn, harg⟩ := Frame.mem_targets_pos.mp harg
    obtain ⟨a, ha⟩ := mapM_mem hcomposed (List.mk_mem_zipIdx_iff_getElem?.mpr harg)
    dsimp only at ha
    rw [if_pos (by rw [hn])] at ha
    exact ⟨a, ha⟩
  | opt key =>
    obtain ⟨o, ho, harg⟩ := List.mem_map.mp harg
    obtain ⟨ho, hkey⟩ := List.mem_filter.mp ho
    obtain ⟨b, hb⟩ := mapM_mem hoptargs ho
    have hkey : Frame.opt key = .opt o.1 := by rw [of_decide_eq_true hkey]
    dsimp only at hb
    rw [if_pos hkey] at hb
    obtain ⟨a, ha, -⟩ := bind_eq_ok.mp hb
    rw [← harg]
    exact ⟨a, ha⟩

end Around

/-- A list of carets cannot be appended to `"var_"`. -/
theorem composeCarrots_entersVar {frames : List Frame} {term : Term}
    (hvar : entersVar frames term = true) (carrots : List Token) :
    composeCarrots repr frames term ≠ .ok carrots := by
  induction frames generalizing term carrots with
  | nil => cases hvar
  | cons frame frames ih =>
    cases term with
    | node cls args optargs =>
      intro h
      obtain ⟨p, hp, h⟩ := bind_eq_ok.mp h
      obtain ⟨t, ht, -⟩ := bind_eq_ok.mp h
      cases Bool.or_eq_true_iff.mp hvar with
      | inl hcls =>
        simp only [Bool.and_eq_true, decide_eq_true_eq] at hcls
        obtain ⟨hcls, hframe⟩ := hcls
        rw [hcls] at ht
        cases args with
        | nil =>
          rw [composeAround_nil hp] at ht
          cases ht
        | cons arg args =>
          obtain ⟨a, rest, ha, hp⟩ := composeAround_head hp
          rw [if_pos hframe] at ha
          obtain ⟨carrots', -, ha⟩ := map_eq_ok.mp ha
          rw [hp, ← ha] at ht
          cases ht
      | inr htargets =>
        obtain ⟨arg, harg, hvar⟩ := List.any_eq_true.mp htargets
        obtain ⟨a, ha⟩ := composeAround_target hp harg
        obtain ⟨carrots', hcarrots, -⟩ := map_eq_ok.mp ha
        exact ih hvar carrots' hcarrots

theorem top_congruent : Congruent fun (_ : T α) (_ : T β) => True := by
  constructor
  · intro _
    trivial
  · intro _ _ _ _ _
    trivial

/-- Where the frames lead past the arguments of variables, the carets of a query that is printed are
printed. -/
theorem composeCarrots_returns {frames : List Frame} {term : Term}
    (hvar : entersVar frames term = false) :
    Simulates (fun _ _ => True) (composeTerm (α := Token) repr term)
      (composeCarrots repr frames term) := by
  induction frames generalizing term with
  | nil => exact fun t ht => ⟨_, bind_eq_ok.mpr ⟨t, ht, rfl⟩, trivial⟩
  | cons frame frames ih =>
    cases term with
    | node cls args optargs =>
      obtain ⟨hcls, htargets⟩ := Bool.or_eq_false_iff.mp hvar
      rw [composeTerm_around frame]
      intro t ht
      obtain ⟨p, hp, ht⟩ := bind_eq_ok.mp ht
      let R (_ _ : T Token) : Prop := True
      have htarget (arg : Term) (harg : arg ∈ frame.targets args optargs) : Simulates R
          (composeTerm repr arg) ((composeCarrots repr frames arg).map T.list) := by
        intro t ht
        have hvar := Bool.eq_false_iff.mpr (List.any_eq_false.mp htargets arg harg)
        obtain ⟨carrots, hcarrots, -⟩ := ih hvar t ht
        exact ⟨.list carrots, map_eq_ok.mpr ⟨carrots, hcarrots, rfl⟩, trivial⟩
      obtain ⟨p', hp', hargs, hopts⟩ :=
        composeAround_simulates (fun term t ht => ⟨t, ht, trivial⟩) htarget p hp
      have hcomposed : Simulates R (compose repr concatVar cls (args.map Term.cls) p.1 p.2)
          (compose repr concatVar cls (args.map Term.cls) p'.1 p'.2) := by
        apply compose_simulates top_congruent cls _ hargs hopts
        intro hclass arg harg arg' harg' _
        cases args with
        | nil =>
          rw [composeAround_nil hp] at harg
          cases harg
        | cons a args =>
          have hframe : frame ≠ .pos 0 := by
            intro hframe
            rw [hclass, hframe] at hcls
            cases hcls
          obtain ⟨b, rest, hb, hp⟩ := composeAround_head hp
          obtain ⟨b', rest', hb', hp'⟩ := composeAround_head hp'
          rw [ite_self] at hb
          rw [if_neg hframe, hb] at hb'
          rw [hp] at harg
          rw [hp'] at harg'
          cases harg
          cases harg'
          cases hb'
          exact fun t ht => ⟨t, ht, trivial⟩
      obtain ⟨t', ht', -⟩ := hcomposed t ht
      exact ⟨_, bind_eq_ok.mpr ⟨p', hp', bind_eq_ok.mpr ⟨t', ht', rfl⟩⟩, trivial⟩

/-! ### The items of the text -/

/-- The items of the text of a query, each with its mark. -/
def flagged (repr : List Char → List Char) (frames : List Frame) (term : Term) :
    Except PrintExn (List (Token × Bool)) :=
  locate repr (fun token mark => [(token, mark)]) frames term

/-- What is printed below an item. -/
def paint (item : Token × Bool) : Token := if item.2 then caret else mask item.1

section Located
variable {γ : Type} {tok : Token → List α} {tok' : Token → List β} {g : α → List γ}
  {g' : β → List γ}

theorem besideVar_same (htok : ∀ token, (tok token).flatMap g = (tok' token).flatMap g')
    {arg : T α} {arg' : T β} (h : SameItems tok tok' g g' arg arg') :
    Simulates (SameItems tok tok' g g') (besideVar arg) (besideVar arg') :=
  have hR := sameItems_congruent htok
  .ok (hR.cat (.cons (hR.text _) (.cons h .nil)))

theorem concatVar_same (htok : ∀ token, (tok token).flatMap g = (tok' token).flatMap g')
    {arg : T α} {arg' : T β} (h : SameItems tok tok' g g' arg arg') :
    Simulates (SameItems tok tok' g g') (concatVar arg) (besideVar arg') := by
  cases arg with
  | list items => exact .error
  | seq ts intsp => exact .error
  | str s =>
    apply Simulates.ok
    have htext := iter_chars htok "var_".toList
    unfold SameItems at h ⊢
    simp only [T.iter, T.cat, iterSeq, iterRest, text, Intsp.iter, List.flatMap_append,
      List.flatMap_nil, List.nil_append, List.append_nil] at h htext ⊢
    rw [htext, h]

theorem locate_expand {item : Token → Bool → List α} {item' : Token → Bool → List β}
    (hitem : ∀ token mark, (item token mark).flatMap g = (item' token mark).flatMap g')
    (frames : List Frame) (term : Term) :
    Simulates (fun l l' => l.flatMap g = l'.flatMap g') (locate repr item frames term)
      (locate repr item' frames term) := by
  induction frames generalizing term with
  | nil =>
    intro l hl
    obtain ⟨t, ht, hl⟩ := bind_eq_ok.mp hl
    cases hl
    refine ⟨_, bind_eq_ok.mpr ⟨t, ht, rfl⟩, ?_⟩
    simp only [List.flatMap_assoc, hitem]
  | cons frame frames ih =>
    cases term with
    | node cls args optargs =>
      have htok (token : Token) := hitem token false
      have hR := sameItems_congruent htok
      refine .bind (composeAround_simulates
        (R := SameItems (fun token => item token false) (fun token => item' token false) g g')
        (fun term => ?_) fun term _ => ?_) fun p p' hp => ?_
      · exact (composeTerm_plain hR term).mono fun _ _ h => h.1
      · exact (ih term).map fun l l' h => h
      · exact .bind (compose_simulates hR cls _ hp.1 hp.2 fun _ _ _ _ _ h =>
          besideVar_same htok h) fun t t' h => .ok h

end Located

section Flagged
variable {γ : Type} {g : Token → List γ} {g' : Token × Bool → List γ}

/-- The items of a `T Token` on the one side, and those with marks on the other. -/
abbrev SameFlagged (g : Token → List γ) (g' : Token × Bool → List γ) :
    T Token → T (Token × Bool) → Prop :=
  SameItems (fun token => [token]) (fun token => [(token, false)]) g g'

theorem around_flagged {target : Term → Except PrintExn (T Token)} {frames : List Frame}
    (htarget : ∀ term, Simulates (SameFlagged g g') (target term)
      ((flagged repr frames term).map T.list))
    (hg : ∀ token, g token = g' (token, false)) (frame : Frame) (cls : Class) (args : List Term)
    (optargs : List (List Char × Term)) :
    Simulates (fun t l => (tokens t).flatMap g = l.flatMap g')
      (do
        let p ← composeAround repr target frame args optargs
        compose repr concatVar cls (args.map Term.cls) p.1 p.2)
      (flagged repr (frame :: frames) (.node cls args optargs)) := by
  have htok (token : Token) : [token].flatMap g = [(token, false)].flatMap g' := by
    rw [List.flatMap_singleton, List.flatMap_singleton, hg]
  have hR := sameItems_congruent htok
  have hterm (term : Term) : Simulates (SameFlagged g g') (composeTerm repr term)
      (composeTerm repr term) :=
    (composeTerm_plain hR term).mono fun _ _ h => h.1
  refine .bind (composeAround_simulates hterm fun term _ => htarget term) fun p p' hp => ?_
  intro t ht
  obtain ⟨t', ht', h⟩ := compose_simulates hR cls _ hp.1 hp.2
    (fun _ _ _ _ _ h => concatVar_same htok h) t ht
  exact ⟨_, bind_eq_ok.mpr ⟨t', ht', rfl⟩, h⟩

end Flagged

/-- The items are those of the query that is printed. -/
theorem composeTerm_flagged (frames : List Frame) (term : Term) :
    Simulates (fun t l => tokens t = l.map Prod.fst) (composeTerm repr term)
      (flagged repr frames term) := by
  induction frames generalizing term with
  | nil =>
    intro t ht
    refine ⟨_, bind_eq_ok.mpr ⟨t, ht, rfl⟩, ?_⟩
    dsimp only
    rw [List.map_flatMap]
    exact (List.flatMap_singleton' _).symm
  | cons frame frames ih =>
    cases term with
    | node cls args optargs =>
      rw [composeTerm_around frame]
      have htarget (term : Term) : Simulates
          (SameFlagged (fun token => [token]) fun item => [item.1]) (composeTerm repr term)
          ((flagged repr frames term).map T.list) := by
        intro t ht
        obtain ⟨l, hl, h⟩ := ih term t ht
        refine ⟨_, map_eq_ok.mpr ⟨l, hl, rfl⟩, ?_⟩
        change (tokens t).flatMap _ = l.flatMap _
        rw [h, List.flatMap_map]
      intro t ht
      obtain ⟨l, hl, h⟩ := around_flagged htarget (fun _ => rfl) frame cls args optargs t ht
      rw [List.flatMap_singleton', ← List.map_eq_flatMap] at h
      exact ⟨l, hl, h⟩

theorem mask_paint (item : Token × Bool) : mask (paint item) = paint item := by
  unfold paint mask
  split_ifs <;> first | rfl | contradiction

/-- The carets that are printed are made of the items one by one. -/
theorem composeCarrots_flagged (frames : List Frame) (term : Term) :
    Simulates (fun carrots l => carrots = l.map paint) (composeCarrots repr frames term)
      (flagged repr frames term) := by
  induction frames generalizing term with
  | nil =>
    intro carrots h
    obtain ⟨t, ht, h⟩ := bind_eq_ok.mp h
    cases h
    refine ⟨_, bind_eq_ok.mpr ⟨t, ht, rfl⟩, ?_⟩
    dsimp only
    rw [List.map_flatMap, List.map_eq_flatMap]
    rfl
  | cons frame frames ih =>
    cases term with
    | node cls args optargs =>
      intro carrots h
      obtain ⟨p, hp, h⟩ := bind_eq_ok.mp h
      obtain ⟨t, ht, h⟩ := bind_eq_ok.mp h
      cases h
      have htarget (term : Term) : Simulates
          (SameFlagged (fun token => [mask token]) fun item => [paint item])
          ((composeCarrots repr frames term).map T.list)
          ((flagged repr frames term).map T.list) := by
        apply (ih term).map
        intro carrots l h
        change carrots.flatMap _ = l.flatMap _
        rw [h, List.flatMap_map]
        simp only [mask_paint]
      obtain ⟨l, hl, h⟩ := around_flagged htarget (fun _ => rfl) frame cls args optargs t
        (bind_eq_ok.mpr ⟨p, hp, ht⟩)
      rw [← List.map_eq_flatMap, ← List.map_eq_flatMap] at h
      exact ⟨l, hl, h⟩

/-! ### Items are not empty -/

theorem iterRest_proper {w : List Token} (hw : ∀ token ∈ w, token ≠ []) {ts : List (T Token)}
    (h : ∀ t ∈ ts, ∀ token ∈ tokens t, token ≠ []) :
    ∀ token ∈ iterRest (fun token => [token]) w ts, token ≠ [] := by
  induction ts with
  | nil => simp [iterRest]
  | cons t ts ih =>
    rw [List.forall_mem_cons] at h
    rw [iterRest, List.forall_mem_append, List.forall_mem_append]
    exact ⟨⟨hw, h.1⟩, ih h.2⟩

theorem proper_congruent :
    Congruent fun (t : T Token) (_ : T Token) => ∀ token ∈ tokens t, token ≠ [] := by
  constructor
  · exact fun s => intsp_str_proper s
  · intro ts ts' intsp hproper h
    have hts : ∀ t ∈ ts, ∀ token ∈ tokens t, token ≠ [] := by
      induction h with
      | nil => exact fun t ht => by cases ht
      | cons h _ ih => exact List.forall_mem_cons.mpr ⟨h, ih⟩
    cases ts with
    | nil => exact fun token htoken => by cases htoken
    | cons t ts =>
      rw [List.forall_mem_cons] at hts
      change ∀ token ∈ iterSeq _ _ _, _
      rw [iterSeq, List.forall_mem_append]
      exact ⟨hts.1, iterRest_proper hproper hts.2⟩

theorem composeTerm_proper {term : Term} {t : T Token} (h : composeTerm repr term = .ok t) :
    ∀ token ∈ tokens t, token ≠ [] := by
  obtain ⟨_, -, hproper⟩ := composeTerm_plain proper_congruent term t h
  exact hproper.1

/-! ### When the carets stand under the marks -/

/-- The line that belongs under an item. -/
def underline (item : Token × Bool) : List Char :=
  item.1.map fun _ => if item.2 then '^' else ' '

theorem paint_length (item : Token × Bool) : (paint item).length = 1 := by
  unfold paint mask
  split_ifs <;> rfl

theorem paint_eq_underline {item : Token × Bool} :
    paint item = underline item ↔ item.1.length = 1 ∧ (item.1 = caret → item.2 = true) := by
  obtain ⟨token, mark⟩ := item
  have hlength (h : paint (token, mark) = underline (token, mark)) : token.length = 1 := by
    have h := congrArg List.length h
    rwa [paint_length, underline, List.length_map, eq_comm] at h
  constructor
  · intro h
    refine ⟨hlength h, fun hcaret => ?_⟩
    dsimp only at hcaret
    cases mark with
    | true => rfl
    | false =>
      rw [hcaret] at h
      cases h
  · intro ⟨h, hcaret⟩
    obtain ⟨c, hc⟩ := List.length_eq_one_iff.mp h
    dsimp only at hc hcaret
    cases mark with
    | true =>
      rw [hc]
      rfl
    | false =>
      have hmask : mask token = [' '] := if_pos fun h => Bool.false_ne_true (hcaret h)
      change mask token = _
      rw [hmask, hc]
      rfl

/-- The characters of the text are those of its items. -/
theorem markQuery_flagged {root : Term} {frames : List Frame} {l : List (Token × Bool)}
    (h : flagged repr frames root = .ok l) :
    markQuery repr root frames = .ok (l.flatMap fun item => item.1.map fun c => (c, item.2)) := by
  have hitem (token : Token) (mark : Bool) :
      [(token, mark)].flatMap (fun item => item.1.map fun c => (c, item.2)) =
        (token.map fun c => (c, mark)).flatMap fun m => [m] := by
    rw [List.flatMap_singleton, List.flatMap_singleton']
  obtain ⟨marks, hmarks, hl⟩ := locate_expand hitem frames root l h
  rw [List.flatMap_singleton'] at hl
  rw [hl]
  exact hmarks

section Lines
variable {root : Term} {frames : List Frame} {text : List Char} {l : List (Token × Bool)}

theorem printCarrots_flagged (hvar : entersVar frames root = false) {t : T Token}
    (ht : composeTerm repr root = .ok t) (hl : flagged repr frames root = .ok l) :
    printCarrots repr root frames = .ok (l.flatMap paint) := by
  obtain ⟨carrots, hcarrots, -⟩ := composeCarrots_returns hvar t ht
  obtain ⟨l', hl', hpaint⟩ := composeCarrots_flagged frames root carrots hcarrots
  rw [hl] at hl'
  cases hl'
  rw [List.flatMap_def, ← hpaint]
  exact bind_eq_ok.mpr ⟨carrots, hcarrots, rfl⟩

theorem points_flagged {t : T Token} (ht : composeTerm repr root = .ok t)
    (hl : flagged repr frames root = .ok l) (htokens : tokens t = l.map Prod.fst) :
    Points repr root frames ↔ printCarrots repr root frames = .ok (l.flatMap underline) := by
  have hmarks := markQuery_flagged hl
  have hline : (l.flatMap fun item => item.1.map fun c => (c, item.2)).map
      (fun m => if m.2 then '^' else ' ') = l.flatMap underline := by
    rw [List.map_flatMap]
    simp only [List.map_map]
    rfl
  constructor
  · intro ⟨text, marks, _, hmarks', _, h⟩
    rw [hmarks] at hmarks'
    cases hmarks'
    rwa [hline] at h
  · intro h
    rw [← hline] at h
    refine ⟨(tokens t).flatten, _, bind_eq_ok.mpr ⟨t, ht, rfl⟩, hmarks, ?_, h⟩
    rw [htokens, List.map_flatMap, ← List.flatMap_def]
    simp only [List.map_map, Function.comp_def, List.map_id']

/-- Where each item is one character, a caret among the items is one in the text. -/
theorem carets_marked (hl : flagged repr frames root = .ok l)
    (hnarrow : ∀ item ∈ l, item.1.length = 1) :
    (∀ item ∈ l, item.1 = caret → item.2 = true) ↔
      ∀ marks, markQuery repr root frames = .ok marks → ∀ m ∈ marks, m.1 = '^' → m.2 = true := by
  have hmarks := markQuery_flagged hl
  constructor
  · intro h marks hmarks' m hm hcaret
    rw [hmarks] at hmarks'
    cases hmarks'
    obtain ⟨item, hitem, hm⟩ := List.mem_flatMap.mp hm
    obtain ⟨c, hc, hm⟩ := List.mem_map.mp hm
    rw [← hm] at hcaret ⊢
    dsimp only at hcaret
    obtain ⟨c', hc'⟩ := List.length_eq_one_iff.mp (hnarrow item hitem)
    rw [hc', List.mem_singleton] at hc
    apply h item hitem
    rw [hc', ← hc, hcaret]
    rfl
  · intro h item hitem hcaret
    apply h _ hmarks ('^', item.2) _ rfl
    apply List.mem_flatMap.mpr ⟨item, hitem, _⟩
    rw [hcaret]
    exact List.mem_singleton.mpr rfl

/-- The carets stand under what the frames lead to just where these do not enter the argument of a
variable, no statement of two characters is shown between two arguments, and there is no `^` in the
rest of the text. -/
theorem points_iff (hprint : printQuery repr root = .ok text) :
    Points repr root frames ↔ entersVar frames root = false ∧ wide root = false ∧
      ∀ marks, markQuery repr root frames = .ok marks → ∀ m ∈ marks, m.1 = '^' → m.2 = true := by
  obtain ⟨t, ht, -⟩ := bind_eq_ok.mp hprint
  obtain ⟨l, hl, htokens⟩ := composeTerm_flagged frames root t ht
  have hproper : ∀ item ∈ l, underline item ≠ [] := by
    have hproper := composeTerm_proper ht
    rw [htokens, List.forall_mem_map] at hproper
    exact fun item hitem h => hproper item hitem (List.map_eq_nil_iff.mp h)
  have hwide : wide root = false ↔ ∀ item ∈ l, item.1.length = 1 := by
    have hwide : Narrow t ↔ wide root = false := composeTerm_wide root t ht
    rw [← hwide, Narrow, htokens, List.forall_mem_map]
  have hpaint : l.flatMap paint = l.flatMap underline ↔
      (∀ item ∈ l, item.1.length = 1) ∧ ∀ item ∈ l, item.1 = caret → item.2 = true := by
    rw [flatMap_eq_iff (fun item _ => paint_length item) hproper, ← forall₂_and]
    exact forall₂_congr fun item _ => paint_eq_underline
  rw [points_flagged ht hl htokens, hwide]
  cases hvar : entersVar frames root with
  | true =>
    constructor
    · intro h
      obtain ⟨carrots, hcarrots, -⟩ := bind_eq_ok.mp h
      exact absurd hcarrots (composeCarrots_entersVar hvar carrots)
    · intro ⟨h, _⟩
      cases h
  | false =>
    rw [printCarrots_flagged hvar ht hl]
    constructor
    · intro h
      obtain ⟨hnarrow, hcaret⟩ := hpaint.mp (Except.ok.inj h)
      exact ⟨rfl, hnarrow, (carets_marked hl hnarrow).mp hcaret⟩
    · intro ⟨_, hnarrow, hcaret⟩
      exact congrArg _ (hpaint.mpr ⟨hnarrow, (carets_marked hl hnarrow).mpr hcaret⟩)

end Lines

/-- The `repr` of a key in the examples below: between quotes. -/
def quoted (key : List Char) : List Char := ['\''] ++ key ++ ['\'']

def number (data : String) : Term := .node (.datum data.toList) [] []

/-- `r.expr(1) + 2`, with the error in its second argument. -/
theorem points_add : Points quoted (.node (.biOper .add) [number "1", number "2"] []) [.pos 1] := by
  have hprint : printQuery quoted (.node (.biOper .add) [number "1", number "2"] []) =
      .ok "(r.expr(1) + r.expr(2))".toList := by rfl
  have hmarks : markQuery quoted (.node (.biOper .add) [number "1", number "2"] []) [.pos 1] =
      .ok ("(r.expr(1) + r.expr(".toList.map (·, false) ++ ('2', true) ::
        "))".toList.map (·, false)) := by rfl
  apply (points_iff hprint).mpr
  constructor
  · rfl
  constructor
  · rfl
  intro marks h
  rw [hmarks] at h
  cases h
  decide

/-- `r.expr(1) == 2`, with the error in its second argument: the item `==` has one blank below
it. -/
theorem misses_eq : ¬Points quoted (.node (.biOper .eq) [number "1", number "2"] []) [.pos 1] := by
  have hprint : printQuery quoted (.node (.biOper .eq) [number "1", number "2"] []) =
      .ok "(r.expr(1) == r.expr(2))".toList := by rfl
  intro ⟨text, marks, htext, hmarks, hfst, hcarets⟩
  have hprinted : printCarrots quoted (.node (.biOper .eq) [number "1", number "2"] []) [.pos 1] =
      .ok "                    ^  ".toList := by rfl
  rw [hprint] at htext
  rw [hprinted] at hcarets
  have hlength := congrArg List.length (Except.ok.inj hcarets)
  rw [List.length_map, ← List.length_map Prod.fst, hfst, ← Except.ok.inj htext] at hlength
  revert hlength
  decide

end RethinkDB.Ast.Printer
