import RethinkDB.Import.JsonComplete
import RethinkDB.Import.JsonRefills

/-! What a buffer that ends inside a line makes of it. `get_line` passes over a comma before it
knows that more data is needed, and over another one when it starts again; and of an item that is
cut, such as a number, it may read the part that is there. -/
namespace RethinkDB.Import.Source
open RethinkDB.Lib Prog
open RethinkDB.Import.ReadToQueue (Cut)

/-- No value starts with a comma. -/
def Separates {V : Type} (D : JSONDecoder V) : Prop := ∀ rest, D.rawDecode (',' :: rest) = none

/-- No two parts of an item in the text are read as the same value. -/
def Tells {V : Type} (D : JSONDecoder V) (text : List Char) : Prop :=
  ∀ cs n n' value k k', cs <:+ text → D.rawDecode (cs.take n) = some (value, k) →
    D.rawDecode (cs.take n') = some (value, k') → k = k'

theorem Tells.suffix {V : Type} {D : JSONDecoder V} {text rest : List Char} (h : Tells D text)
    (hrest : rest <:+ text) : Tells D rest :=
  fun cs n n' value k k' hcs => h cs n n' value k k' (hcs.trans hrest)

/-! ### A line that is cut -/

section Cuts
variable {V : Type} {D : JSONDecoder V} {comma : Bool} {text text' seen unseen rest cs : List Char}
  {row : V}

theorem skip_append (seen unseen : List Char) :
    Json.skip (seen ++ unseen) = Json.skip (Json.skip seen ++ unseen) := by
  by_cases hnil : Json.skip seen = []
  · rw [hnil, skip_white (skip_nil_iff.mp hnil)]
    rfl
  · rw [Json.skip_more _ hnil, Json.skip_more _ (by rwa [skip_skip]), skip_skip]

theorem past_congr (h : Json.skip text = Json.skip text') : past comma text = past comma text' := by
  unfold past
  rw [h]

/-- A line is that of what follows the whitespace and the comma. -/
theorem line_congr (h : past comma text = past comma text') :
    line D comma text = line D comma text' := by
  unfold line
  rw [h]

theorem past_text (comma : Bool) (text : List Char) : past comma text <:+ text :=
  (past_suffix comma text).trans (Json.skip_suffix text)

/-- What has been passed over stays so if more is seen. -/
theorem past_append (unseen : List Char) (h : 2 ≤ (past comma seen).length) :
    past comma (seen ++ unseen) = past comma seen ++ unseen := by
  have hle := (past_suffix comma seen).length_le
  have hne : Json.skip seen ≠ [] := List.ne_nil_of_length_pos (by omega)
  have hskip := Json.skip_more unseen hne
  have hhead : (Json.skip seen ++ unseen).head? = (Json.skip seen).head? :=
    List.head?_append_of_ne_nil _ hne
  by_cases hcomma : Comma comma (Json.skip seen)
  · have hpast := past_pos (by omega) hcomma
    have htail : (Json.skip seen).tail.length = (Json.skip seen).length - 1 := List.length_tail
    have hmore : ¬(Json.skip seen).tail.length ≤ 1 := by
      intro hone
      rw [if_pos hone] at hpast
      rw [hpast] at h
      omega
    rw [if_neg hmore] at hpast
    have hcomma' : Comma comma (Json.skip (seen ++ unseen)) := by
      rw [hskip]
      exact ⟨hcomma.1, hhead.trans hcomma.2⟩
    rw [past_pos (by rw [hskip, List.length_append]; omega) hcomma', hskip,
      List.tail_append_of_ne_nil hne, if_neg (by rw [List.length_append]; omega), hpast]
    apply Json.skip_more
    apply List.ne_nil_of_length_pos
    rw [← hpast]
    omega
  · rw [past_neg (.inr hcomma), past_neg, hskip]
    right
    intro hcomma'
    rw [hskip] at hcomma'
    exact hcomma ⟨hcomma'.1, hhead.symm.trans hcomma'.2⟩

/-- A row is read off a part of what follows in the text. -/
theorem line_row_part (unseen : List Char) (hline : line D comma seen = (rest, some row)) : ∃ n k,
    D.rawDecode ((past comma (seen ++ unseen)).take n) = some (row, k) ∧ 0 < k ∧
      k ≤ (past comma (seen ++ unseen)).length ∧
      rest ++ unseen = (past comma (seen ++ unseen)).drop k := by
  have hlength : ¬(past comma seen).length ≤ 1 := by
    intro hshort
    rw [line_short hshort] at hline
    cases hline
  rw [past_append unseen (by omega)]
  unfold line at hline
  dsimp only at hline
  rw [if_neg hlength] at hline
  cases hdecode : D.rawDecode (past comma seen) with
  | none =>
    rw [hdecode] at hline
    cases hline
  | some decoded =>
    obtain ⟨value, k⟩ := decoded
    rw [hdecode] at hline
    cases hline
    obtain ⟨hpos, hle⟩ := D.within hdecode
    refine ⟨(past comma seen).length, k, ?_, hpos, ?_, ?_⟩
    · rw [List.take_left]
      exact hdecode
    · rw [List.length_append]
      omega
    · rw [List.drop_append_of_le_length hle]

/-- A row takes something of the text. -/
theorem line_row_rest (array : Bool) (unseen : List Char)
    (hline : line D comma seen = (rest, some row)) :
    (past array (rest ++ unseen)).length < (past comma (seen ++ unseen)).length := by
  obtain ⟨n, k, -, hpos, hle, hrest⟩ := line_row_part unseen hline
  have hlength := (past_text array (rest ++ unseen)).length_le
  have hdrop := congrArg List.length hrest
  rw [List.length_drop] at hdrop
  omega

theorem Separates.take (h : Separates D) (cs : List Char) (n : ℕ) :
    D.rawDecode ((',' :: cs).take n) = none := by
  cases n with
  | zero =>
    rw [List.take_zero]
    cases hdecode : D.rawDecode [] with
    | none => rfl
    | some decoded =>
      have hwithin := D.within hdecode
      rw [List.length_nil] at hwithin
      omega
  | succ n => exact h _

/-- A line that is not complete starts again with what it has not passed over, unless that is behind
a comma and before another one. -/
theorem line_none_append (hline : line D comma seen = (rest, none)) (hunseen : unseen ≠ []) :
    past comma (seen ++ unseen) = past comma (rest ++ unseen) ∨
      comma = true ∧ ∃ cs, cs ≠ [] ∧ past comma (seen ++ unseen) = ',' :: cs ∧
        Json.skip (rest ++ unseen) = ',' :: cs := by
  have hpast : rest = past comma seen := by
    unfold line at hline
    dsimp only at hline
    split_ifs at hline
    · exact (Prod.mk.inj hline).1.symm
    · cases hdecode : D.rawDecode (past comma seen) with
      | none =>
        rw [hdecode] at hline
        exact (Prod.mk.inj hline).1.symm
      | some decoded =>
        rw [hdecode] at hline
        cases hline
  by_cases hpass : (Json.skip seen).length ≤ 1 ∨ ¬Comma comma (Json.skip seen)
  · left
    rw [hpast, past_neg hpass]
    exact past_congr (skip_append _ _)
  · rw [not_or, not_not] at hpass
    obtain ⟨hlength, hcomma⟩ := hpass
    obtain ⟨behind, hskip⟩ : ∃ behind, Json.skip seen = ',' :: behind := by
      obtain ⟨cs, hcs⟩ := List.head?_eq_some_iff.mp hcomma.2
      exact ⟨cs, hcs⟩
    have hmore := List.length_pos_of_ne_nil hunseen
    have hall : Json.skip (seen ++ unseen) = ',' :: (behind ++ unseen) := by
      rw [Json.skip_more _ (by rw [hskip]; simp), hskip]
      rfl
    rw [hskip, List.length_cons] at hlength
    have hrest : Json.skip (rest ++ unseen) = Json.skip (behind ++ unseen) := by
      rw [hpast, past_pos (by rw [hskip, List.length_cons]; omega) hcomma, hskip, List.tail_cons]
      split_ifs
      · rfl
      · exact (skip_append _ _).symm
    have hwhole : past comma (seen ++ unseen) = Json.skip (behind ++ unseen) := by
      rw [past_pos (by rw [hall, List.length_cons, List.length_append]; omega)
        (by rw [hall]; exact ⟨hcomma.1, rfl⟩), hall, List.tail_cons,
        if_neg (by rw [List.length_append]; omega)]
    by_cases hsecond : (Json.skip (behind ++ unseen)).length ≤ 1 ∨
        ¬Comma comma (Json.skip (behind ++ unseen))
    · left
      rw [hwhole, past_neg (by rwa [hrest]), hrest]
    · right
      rw [not_or, not_not] at hsecond
      obtain ⟨cs, hcs⟩ := List.head?_eq_some_iff.mp hsecond.2.2
      refine ⟨hcomma.1, cs, ?_, hwhole.trans hcs, hrest.trans hcs⟩
      rintro rfl
      rw [hcs] at hsecond
      exact hsecond.1 (Nat.le_refl 1)

/-- The second comma is passed over where the line starts again. -/
theorem past_second (hcs : cs ≠ []) : (past true (',' :: cs)).length ≤ cs.length := by
  have hskip : Json.skip (',' :: cs) = ',' :: cs := Json.skip_cons (by decide) cs
  have hlength := List.length_pos_of_ne_nil hcs
  rw [past_pos (by rw [hskip, List.length_cons]; omega) ⟨rfl, by rw [hskip]; rfl⟩, hskip,
    List.tail_cons]
  split_ifs
  · exact Nat.le_refl _
  · exact (Json.skip_suffix cs).length_le

theorem line_second (hcs : cs ≠ []) : line D true (',' :: cs) ≠ (',' :: cs, none) := by
  intro hline
  have hlength : (line D true (',' :: cs)).1.length ≤ (past true (',' :: cs)).length := by
    unfold line
    dsimp only
    split_ifs
    · exact Nat.le_refl _
    · cases D.rawDecode (past true (',' :: cs)) with
      | none => exact Nat.le_refl _
      | some decoded => exact (List.drop_suffix _ _).length_le
  have hsecond := past_second hcs
  rw [hline, List.length_cons] at hlength
  omega

end Cuts

/-! ### The text read line by line -/

section Whole
variable {V : Type} (D : JSONDecoder V) (array : Bool) (maxSize : ℕ)

namespace Window

/-- The row of a line that is complete in the buffer; what `get_line` makes of all that is left, if
it is not. -/
def resumed (w : Window) : List Char × Option V :=
  match w.line D array with
  | (rest, some row) => ((w.afterLine (rest, some row)).text, some row)
  | (rest, none) =>
    Source.line D (array && w.found) (w.afterLine (rest, (none : Option V))).text

/-- The end of the buffer makes no difference to the line. -/
def Faithful (w : Window) : Prop :=
  w.seen < w.text.length → w.resumed D array = Source.line D (array && w.found) w.text

/-- No row comes any more, and not the end of a file. -/
def Barren (w : Window) : Prop :=
  ∃ left, Runs D array maxSize w [] .stopIteration left ∧ closed array left = false

/-- What is to be read, and what is made of it. -/
def cut (w : Window) : List Char × List Char × Option V :=
  (past (array && w.found) w.text, w.resumed D array)

end Window

/-- Where, from `w` on, the end of a buffer makes a difference, and which; but not where no row
comes any more and not the end of a file. -/
def Cuts (w : Window) : Set (List Char × List Char × Option V) :=
  {c | ∃ v, Reaches D array maxSize w v ∧ ¬v.Faithful D array ∧ ¬v.Barren D array maxSize ∧
    c = v.cut D array}

/-- A text read line by line, all that is left of it in sight but at the cuts: the rows, and what
stays behind them. -/
inductive Whole : Bool → List Char → List (List Char × List Char × Option V) → List V →
    List Char → Prop
  | row {comma : Bool} {text rest left : List Char} {cuts : List (List Char × List Char × Option V)}
    {row : V} {rows : List V} : line D comma text = (rest, some row) →
    Whole array rest cuts rows left → Whole comma text cuts (row :: rows) left
  | done {comma : Bool} {text rest : List Char} : line D comma text = (rest, none) →
    Whole comma text [] [] rest
  | part {comma : Bool} {text left : List Char} {cuts : List (List Char × List Char × Option V)}
    {row : V} {rows : List V} {n k : ℕ} :
    D.rawDecode ((past comma text).take n) = some (row, k) →
    line D comma text ≠ ((past comma text).drop k, some row) →
    Whole array ((past comma text).drop k) cuts rows left →
    Whole comma text ((past comma text, (past comma text).drop k, some row) :: cuts) (row :: rows)
      left
  | second {text cs left : List Char} {cuts : List (List Char × List Char × Option V)}
    {rows : List V} : cs ≠ [] → past true text = ',' :: cs → Whole true (',' :: cs) cuts rows left →
    (rows = [] → closed array left = true) →
    Whole true text ((',' :: cs, line D true (',' :: cs)) :: cuts) rows left

variable {D array maxSize}
variable {comma : Bool} {w v : Window} {text text' cs rest left left' : List Char}
  {cuts cuts' : List (List Char × List Char × Option V)} {c : List Char × List Char × Option V}
  {rows rows' : List V} {row : V} {e : Raised} {n k : ℕ}

theorem closed_comma (array : Bool) (cs : List Char) : closed array (',' :: cs) = false := by
  unfold closed
  rw [Json.skip_cons (by decide)]
  cases array <;> rfl

theorem Whole.congr (h : Whole D array comma text cuts rows left)
    (hpast : past comma text = past comma text') : Whole D array comma text' cuts rows left := by
  cases h with
  | row hline hrest => exact .row ((line_congr hpast).symm.trans hline) hrest
  | done hline => exact .done ((line_congr hpast).symm.trans hline)
  | part hdecode hline hrest =>
    rw [line_congr hpast] at hline
    rw [hpast] at hdecode hline hrest ⊢
    exact .part hdecode hline hrest
  | second hcs hsecond hrest hfruit => exact .second hcs (hpast.symm.trans hsecond) hrest hfruit

/-! #### The cuts, one behind the other -/

theorem past_drop_lt (array : Bool)
    (hdecode : D.rawDecode ((past comma text).take n) = some (row, k)) :
    (past array ((past comma text).drop k)).length < (past comma text).length := by
  obtain ⟨hpos, hle⟩ := D.within hdecode
  have hlength := (past_text array ((past comma text).drop k)).length_le
  rw [List.length_take] at hle
  rw [List.length_drop] at hlength
  omega

theorem past_row_lt (hline : line D comma text = (rest, some row)) :
    (past array rest).length < (past comma text).length := by
  have hlt := line_row_rest array [] hline
  rwa [List.append_nil, List.append_nil] at hlt

/-- No cut is before what is to be read. -/
theorem Whole.within (h : Whole D array comma text cuts rows left) :
    ∀ c ∈ cuts, c.1.length ≤ (past comma text).length := by
  induction h with
  | row hline _ ih => exact fun c hc => (ih c hc).trans (past_row_lt hline).le
  | done => simp
  | part hdecode _ _ ih =>
    intro c hc
    rcases List.mem_cons.mp hc with rfl | hc
    · exact Nat.le_refl _
    · exact (ih c hc).trans (past_drop_lt array hdecode).le
  | second hcs hsecond _ _ ih =>
    intro c hc
    rw [hsecond, List.length_cons]
    rcases List.mem_cons.mp hc with rfl | hc
    · exact Nat.le_refl _
    · exact (ih c hc).trans ((past_second hcs).trans (Nat.le_succ _))

theorem Whole.ordered (h : Whole D array comma text cuts rows left) :
    cuts.Pairwise fun c c' => c'.1.length < c.1.length := by
  induction h with
  | row _ _ ih => exact ih
  | done => exact .nil
  | part hdecode _ hrest ih =>
    exact .cons (fun c hc => (hrest.within c hc).trans_lt (past_drop_lt array hdecode)) ih
  | second hcs _ hrest _ ih =>
    refine .cons (fun c hc => (hrest.within c hc).trans_lt ?_) ih
    exact (past_second hcs).trans_lt (Nat.lt_succ_self _)

/-- Before a comma a line is over, or cut. -/
theorem Whole.behind_comma (hseparates : Separates D) (hpast : past comma text = ',' :: cs)
    (h : Whole D array comma text cuts rows left) : (cuts = [] ∧ rows = [] ∧ left = ',' :: cs) ∨
      comma = true ∧ ∃ tail, cuts = (',' :: cs, line D true (',' :: cs)) :: tail ∧
        Whole D array true (',' :: cs) tail rows left ∧ (rows = [] → closed array left = true) := by
  cases h with
  | row hline _ =>
    rw [line_of_past hpast (hseparates _)] at hline
    cases hline
  | done hline =>
    rw [line_of_past hpast (hseparates _)] at hline
    cases hline
    exact .inl ⟨rfl, rfl, rfl⟩
  | part hdecode _ _ =>
    rw [hpast, hseparates.take] at hdecode
    cases hdecode
  | second _ hsecond hrest hfruit =>
    rw [hpast] at hsecond
    cases hsecond
    exact .inr ⟨rfl, _, rfl, hrest, hfruit⟩

/-- With the same cuts a text has the same rows. -/
theorem Whole.unique (hseparates : Separates D) (h : Whole D array comma text cuts rows left)
    (h' : Whole D array comma text cuts' rows' left') (hcuts : cuts = cuts') :
    rows = rows' ∧ left = left' := by
  induction h generalizing cuts' rows' with
  | row hline hrest ih =>
    cases h' with
    | row hline' hrest' =>
      rw [hline] at hline'
      cases hline'
      obtain ⟨rfl, hleft⟩ := ih hrest' hcuts
      exact ⟨rfl, hleft⟩
    | done hline' =>
      rw [hline] at hline'
      cases hline'
    | part _ _ _ =>
      rw [hcuts] at hrest
      exact absurd (hrest.within _ List.mem_cons_self) (past_row_lt hline).not_ge
    | second _ hsecond _ _ =>
      rw [line_of_past hsecond (hseparates _)] at hline
      cases hline
  | done hline =>
    cases h' with
    | row hline' _ =>
      rw [hline] at hline'
      cases hline'
    | done hline' =>
      rw [hline] at hline'
      cases hline'
      exact ⟨rfl, rfl⟩
    | part _ _ _ => cases hcuts
    | second _ _ _ _ => cases hcuts
  | part hdecode _ _ ih =>
    cases h' with
    | row hline' hrest' =>
      rw [← hcuts] at hrest'
      exact absurd (hrest'.within _ List.mem_cons_self) (past_row_lt hline').not_ge
    | done => cases hcuts
    | part _ _ hrest' =>
      simp only [List.cons.injEq, Prod.mk.injEq, Option.some.injEq, true_and] at hcuts
      obtain ⟨⟨hdrop, rfl⟩, htail⟩ := hcuts
      rw [← hdrop] at hrest'
      obtain ⟨rfl, hleft⟩ := ih hrest' htail
      exact ⟨rfl, hleft⟩
    | second _ hsecond _ _ =>
      rw [hsecond, hseparates.take] at hdecode
      cases hdecode
  | second _ hsecond _ _ ih =>
    rcases h'.behind_comma hseparates hsecond with ⟨rfl, -⟩ | ⟨-, tail, rfl, hrest', -⟩
    · cases hcuts
    · exact ih hrest' (List.cons.inj hcuts).2

/-- What is left of the text behind a line. -/
theorem Window.afterLine_text (hw : w.Sound) {row : Option V}
    (hline : w.line D array = (rest, row)) :
    (w.afterLine (rest, row)).text = rest ++ w.text.drop w.seen := by
  have hsuffix := line_suffix D (array && w.found) w.visible
  have hlength := w.visible_length hw
  unfold Window.line at hline
  rw [hline] at hsuffix
  have hdrop : w.visible.drop (w.visible.length - rest.length) = rest :=
    (List.suffix_iff_eq_drop.mp hsuffix).symm
  change w.text.drop (w.seen - rest.length) = _
  rw [hlength] at hdrop
  conv_lhs => rw [← List.take_append_drop w.seen w.text]
  rw [List.drop_append_of_le_length (by change _ ≤ w.visible.length; omega)]
  change w.visible.drop _ ++ _ = _
  rw [hdrop]

theorem Window.text_eq (w : Window) : w.visible ++ w.text.drop w.seen = w.text :=
  List.take_append_drop w.seen w.text

theorem afterLine_flag (array : Bool) (w : Window) (rest : List Char) (row : V) :
    (array && (w.afterLine (rest, some row)).found) = array := by
  change (array && (w.found || true)) = array
  rw [Bool.or_true, Bool.and_true]

/-- What a buffer that is filled has before it. -/
theorem fill_text (array : Bool) {w' : Window}
    (hfill : (w.afterLine (rest, (none : Option V))).fill maxSize = .ok w') :
    w'.text = (w.afterLine (rest, (none : Option V))).text ∧
      (array && w'.found) = (array && w.found) := by
  obtain ⟨-, -, -, hw'⟩ := Window.fill_ok_iff.mp hfill
  rw [hw']
  refine ⟨rfl, ?_⟩
  change (array && (w.found || false)) = _
  rw [Bool.or_false]

/-- A buffer is filled if there is more of the text. -/
theorem fill_more (hw : w.Sound) (hline : w.line D array = (rest, none)) {w' : Window}
    (hfill : (w.afterLine (rest, (none : Option V))).fill maxSize = .ok w') :
    w.seen < w.text.length := by
  obtain ⟨-, -, hmore, -⟩ := Window.fill_ok_iff.mp hfill
  have hle := Window.line_le hw hline
  change w.seen - (w.seen - rest.length) < (w.text.drop (w.seen - rest.length)).length at hmore
  rw [List.length_drop] at hmore
  omega

/-- The last line is one of all the text. -/
theorem fill_last (hw : w.Sound) (hline : w.line D array = (rest, none))
    (hfill : (w.afterLine (rest, (none : Option V))).fill maxSize = .error .stopIteration) :
    line D (array && w.found) w.text = (rest, none) := by
  have hend : (w.text.drop (w.seen - rest.length)).length ≤ w.seen - (w.seen - rest.length) :=
    fill_stop hfill
  have hle := Window.line_le hw hline
  rw [List.length_drop] at hend
  have hall : w.visible = w.text := List.take_of_length_le (by omega)
  unfold Window.line at hline
  rwa [hall] at hline

/-- Where a reader comes to no row and no end, a whole line is none. -/
theorem Runs.line_none (hseparates : Separates D) (h : Runs D array maxSize w rows e left)
    (hw : w.Sound) (he : e = .stopIteration) (hrows : rows = [])
    (hleft : closed array left = false) :
    ∃ cs, line D (array && w.found) w.text = (cs, none) ∧ closed array cs = false := by
  induction h with
  | row => cases hrows
  | @refill w w' rest rows e left hline hfill _ ih =>
    obtain ⟨htext, hflag⟩ := fill_text array hfill
    rw [Window.afterLine_text hw hline] at htext
    have hmore := fill_more hw hline hfill
    have hunseen : w.text.drop w.seen ≠ [] := by
      rw [ne_eq, List.drop_eq_nil_iff]
      omega
    have hsplit := line_none_append hline hunseen
    rw [w.text_eq, ← htext] at hsplit
    rcases hsplit with hsame | ⟨-, cs, -, hsecond, -⟩
    · obtain ⟨cs, hwhole, hclosed⟩ := ih ((hw.afterLine _).fill hfill) he hrows hleft
      rw [hflag, ← line_congr hsame] at hwhole
      exact ⟨cs, hwhole, hclosed⟩
    · exact ⟨_, line_of_past hsecond (hseparates _), closed_comma array cs⟩
  | @unfilled w rest e hline hfill =>
    subst he
    exact ⟨rest, fill_last hw hline hfill, hleft⟩

theorem Window.Barren.reaches (h : w.Barren D array maxSize)
    (hreaches : Reaches D array maxSize w v) :
    v.Barren D array maxSize := by
  obtain ⟨left, hruns, hclosed⟩ := h
  obtain ⟨rows, hruns', hsuffix⟩ := hruns.reaches hreaches
  rw [List.suffix_nil.mp hsuffix] at hruns'
  exact ⟨left, hruns', hclosed⟩

/-- Behind a row there is no cut but those from there on, and it. -/
theorem mem_cuts_row (hline : w.line D array = (rest, some row)) (hruns : Runs D array maxSize
    (w.afterLine (rest, some row)) rows .stopIteration left) :
    c ∈ Cuts D array maxSize w ↔ ¬w.Faithful D array ∧ c = w.cut D array ∨
      c ∈ Cuts D array maxSize (w.afterLine (rest, some row)) := by
  constructor
  · rintro ⟨v, hreaches, hcut, hfruit, rfl⟩
    rcases hreaches.of_row hline with rfl | hreaches
    · exact .inl ⟨hcut, rfl⟩
    · exact .inr ⟨v, hreaches, hcut, hfruit, rfl⟩
  · rintro (⟨hcut, rfl⟩ | ⟨v, hreaches, hcut, hfruit, rfl⟩)
    · refine ⟨w, .refl w, hcut, ?_, rfl⟩
      rintro ⟨left', hruns', -⟩
      cases ((Runs.row hline hruns).unique hruns').1
    · exact ⟨v, .row hline hreaches, hcut, hfruit, rfl⟩

theorem mem_cuts_refill {w' : Window} (hline : w.line D array = (rest, none))
    (hfill : (w.afterLine (rest, (none : Option V))).fill maxSize = .ok w')
    (hfruit : ¬w.Barren D array maxSize) :
    c ∈ Cuts D array maxSize w ↔ ¬w.Faithful D array ∧ c = w.cut D array ∨
      c ∈ Cuts D array maxSize w' := by
  constructor
  · rintro ⟨v, hreaches, hcut, hfruit', rfl⟩
    rcases hreaches.of_refill hline hfill with rfl | hreaches
    · exact .inl ⟨hcut, rfl⟩
    · exact .inr ⟨v, hreaches, hcut, hfruit', rfl⟩
  · rintro (⟨hcut, rfl⟩ | ⟨v, hreaches, hcut, hfruit', rfl⟩)
    · exact ⟨w, .refl w, hcut, hfruit, rfl⟩
    · exact ⟨v, .refill hline hfill hreaches, hcut, hfruit', rfl⟩

theorem cuts_barren (h : w.Barren D array maxSize) : Cuts D array maxSize w = ∅ := by
  apply Set.eq_empty_of_forall_notMem
  rintro c ⟨v, hreaches, -, hfruit, -⟩
  exact hfruit (h.reaches hreaches)

/-- A row is read off the whole text, or it is a cut. -/
theorem Whole.of_row (hw : w.Sound) (hline : w.line D array = (rest, some row))
    (hruns : Runs D array maxSize (w.afterLine (rest, some row)) rows .stopIteration left)
    (h : Whole D array array (w.afterLine (rest, some row)).text cuts rows left')
    (hcuts : ∀ c, c ∈ cuts ↔ c ∈ Cuts D array maxSize (w.afterLine (rest, some row))) : ∃ cuts',
    Whole D array (array && w.found) w.text cuts' (row :: rows) left' ∧
      ∀ c, c ∈ cuts' ↔ c ∈ Cuts D array maxSize w := by
  have htext := Window.afterLine_text hw hline
  have hresumed : w.resumed D array = ((w.afterLine (rest, some row)).text, some row) := by
    unfold Window.resumed
    rw [hline]
  by_cases hfaithful : w.Faithful D array
  · refine ⟨cuts, .row ?_ h, fun c => ?_⟩
    · by_cases hmore : w.seen < w.text.length
      · exact (hfaithful hmore).symm.trans hresumed
      · have hall : w.visible = w.text := List.take_of_length_le (by omega)
        have hnone : w.text.drop w.seen = [] := List.drop_eq_nil_of_le (by omega)
        rw [htext, hnone, List.append_nil, ← hall]
        exact hline
    · rw [mem_cuts_row hline hruns, hcuts c]
      simp [hfaithful]
  · obtain ⟨n, k, hdecode, -, -, hrest⟩ := line_row_part (w.text.drop w.seen) hline
    rw [w.text_eq] at hdecode hrest
    rw [← htext] at hrest
    have hother : line D (array && w.found) w.text ≠
        ((past (array && w.found) w.text).drop k, some row) := by
      intro hsame
      apply hfaithful
      intro _
      rw [hresumed, hsame, hrest]
    have hcut : w.cut D array = (past (array && w.found) w.text,
        (past (array && w.found) w.text).drop k, some row) := by
      unfold Window.cut
      rw [hresumed, hrest]
    rw [hrest] at h
    refine ⟨_, .part hdecode hother h, fun c => ?_⟩
    rw [mem_cuts_row hline hruns, List.mem_cons, hcuts c, hcut]
    simp [hfaithful]

/-- A line that starts again is that of the whole text, or a second comma is passed over. -/
theorem Whole.of_refill (hseparates : Separates D) (hw : w.Sound) {w' : Window}
    (hline : w.line D array = (rest, none))
    (hfill : (w.afterLine (rest, (none : Option V))).fill maxSize = .ok w')
    (hfruitful : ¬w.Barren D array maxSize)
    (h : Whole D array (array && w'.found) w'.text cuts rows left')
    (hcuts : ∀ c, c ∈ cuts ↔ c ∈ Cuts D array maxSize w')
    (hfruit : rows = [] → closed array left' = true) : ∃ cuts',
    Whole D array (array && w.found) w.text cuts' rows left' ∧
      ∀ c, c ∈ cuts' ↔ c ∈ Cuts D array maxSize w := by
  obtain ⟨htext, hflag⟩ := fill_text array hfill
  have hafter := Window.afterLine_text hw hline
  have hmore := fill_more hw hline hfill
  have hunseen : w.text.drop w.seen ≠ [] := by
    rw [ne_eq, List.drop_eq_nil_iff]
    omega
  have hresumed : w.resumed D array = line D (array && w.found)
      (w.afterLine (rest, (none : Option V))).text := by
    unfold Window.resumed
    rw [hline]
  have hsplit := line_none_append hline hunseen
  rw [w.text_eq, ← hafter] at hsplit
  rw [htext, hflag] at h
  rcases hsplit with hsame | ⟨hcomma, cs, hcs, hsecond, hskip⟩
  · have hfaithful : w.Faithful D array := fun _ => hresumed.trans (line_congr hsame.symm)
    refine ⟨cuts, h.congr hsame.symm, fun c => ?_⟩
    rw [mem_cuts_refill hline hfill hfruitful, hcuts c]
    simp [hfaithful]
  · have hagain : past (array && w.found) (w.afterLine (rest, (none : Option V))).text =
        past (array && w.found) (',' :: cs) :=
      past_congr (hskip.trans (Json.skip_cons (by decide) cs).symm)
    have hcut : w.cut D array = (',' :: cs, line D true (',' :: cs)) := by
      unfold Window.cut
      rw [hresumed, hsecond, line_congr hagain, hcomma]
    have hfaithful : ¬w.Faithful D array := by
      intro hfaithful
      have hwhole := (hfaithful hmore).symm.trans hresumed
      rw [line_of_past hsecond (hseparates _), line_congr hagain, hcomma] at hwhole
      exact line_second hcs hwhole.symm
    have hrest := h.congr hagain
    rw [hcomma] at hrest hsecond ⊢
    refine ⟨_, .second hcs hsecond hrest hfruit, fun c => ?_⟩
    rw [mem_cuts_refill hline hfill hfruitful, List.mem_cons, hcuts c, hcut]
    simp [hfaithful]

/-- A run reads its text line by line, but at its cuts. -/
theorem Runs.whole (hseparates : Separates D) (h : Runs D array maxSize w rows e left)
    (hw : w.Sound) (he : e = .stopIteration) : ∃ cuts left',
    Whole D array (array && w.found) w.text cuts rows left' ∧
      closed array left' = closed array left ∧ ∀ c, c ∈ cuts ↔ c ∈ Cuts D array maxSize w := by
  induction h with
  | @row w rest row rows e left hline hruns ih =>
    subst he
    obtain ⟨cuts, left', hrest, hclosed, hcuts⟩ := ih (hw.afterLine _) rfl
    rw [afterLine_flag] at hrest
    obtain ⟨cuts', hwhole, hcuts'⟩ := hrest.of_row hw hline hruns hcuts
    exact ⟨cuts', left', hwhole, hclosed, hcuts'⟩
  | @refill w w' rest rows e left hline hfill hruns ih =>
    subst he
    have hruns' := Runs.refill hline hfill hruns
    by_cases hbarren : w.Barren D array maxSize
    · obtain ⟨left', hruns'', hopen⟩ := hbarren
      obtain ⟨rfl, -, rfl⟩ := hruns'.unique hruns''
      obtain ⟨cs, hover, hclosed⟩ := hruns'.line_none hseparates hw rfl rfl hopen
      rw [cuts_barren ⟨left, hruns', hopen⟩]
      exact ⟨[], cs, .done hover, hclosed.trans hopen.symm, by simp⟩
    · obtain ⟨cuts, left', hrest, hclosed, hcuts⟩ := ih ((hw.afterLine _).fill hfill) rfl
      have hfruit : rows = [] → closed array left' = true := by
        rintro rfl
        by_contra hopen
        rw [hclosed, Bool.not_eq_true] at hopen
        exact hbarren ⟨left, hruns', hopen⟩
      obtain ⟨cuts', hwhole, hcuts'⟩ :=
        hrest.of_refill hseparates hw hline hfill hbarren hcuts hfruit
      exact ⟨cuts', left', hwhole, hclosed, hcuts'⟩
  | @unfilled w rest e hline hfill =>
    subst he
    refine ⟨[], rest, .done (fill_last hw hline hfill), rfl, fun c => ?_⟩
    simp only [List.not_mem_nil, false_iff]
    rintro ⟨v, hreaches, hcut, -⟩
    obtain rfl := hreaches.of_unfilled hline hfill
    apply hcut
    intro hmore
    have hle := Window.line_le hw hline
    have hend : (v.text.drop (v.seen - rest.length)).length ≤ v.seen - (v.seen - rest.length) :=
      fill_stop hfill
    rw [List.length_drop] at hend
    omega

end Whole

/-! ### Whole files -/

section Files
variable {V : Type} {D : JSONDecoder V} {array : Bool} {maxSize maxSize' size size' b b' : ℕ}
  {text left : List Char} {rows : List V} {w v : Window} {e : Raised} {o o' : Outcome Raised Unit}
  {pieces pieces' : List (List V)}

theorem limited_jam (maxSize : ℕ) (w : Window) : Limited (.error (w.jam maxSize)) := by
  unfold Window.jam
  split_ifs
  · exact .inl rfl
  · exact .inr ⟨_, rfl⟩

theorem sound_of_mark (hpos : 0 < size) (hmark : text.head? = some (mark array)) :
    (opening array size text).Sound := by
  apply sound_opening array hpos
  intro hnil
  rw [hnil] at hmark
  cases hmark

/-- What a run of a file that could be filled to the end comes to. -/
theorem stops_of_comes (hpos : 0 < size) (hb : 0 < b) (hmark : text.head? = some (mark array))
    (hcomes : Comes D maxSize size b text o pieces) (ho : ¬Limited o) : ∃ rows left,
    Runs D array maxSize (opening array size text) rows .stopIteration left ∧ Cut b rows pieces ∧
      (o = .ok () ↔ closed array left = true) := by
  have hsound := sound_of_mark hpos hmark
  have htotal : ∃ rows e left, Runs D array maxSize (opening array size text) rows e left :=
    runs_total _ hsound
  obtain ⟨rows, e, left, hruns⟩ := htotal
  obtain ⟨o', pieces', hcomes', -, hok, herror⟩ := comes_of_opening hpos hb hmark hruns
  obtain ⟨rfl, rfl⟩ := hcomes.unique hcomes'
  rcases hruns.jams hsound with ⟨rfl, -⟩ | ⟨w, -, -, rfl⟩
  · exact ⟨rows, left, hruns, hok rfl⟩
  · rw [herror w.jam_ne] at ho
    exact absurd (limited_jam maxSize w) ho

theorem size_pos_of_comes (hb : 0 < b) (hcomes : Comes D maxSize size b text o pieces)
    (ho : ¬Limited o) : 0 < size := by
  by_contra hzero
  obtain rfl : size = 0 := by omega
  obtain ⟨message, hfails⟩ := comes_zero (D := D) (b := b) hb
  rw [(hcomes.unique hfails).1] at ho
  exact ho (.inr ⟨message, rfl⟩)

/-- The file behind its first bracket. -/
def behind (array : Bool) (text : List Char) : List Char := if array then text.drop 1 else text

theorem opening_text (array : Bool) (size : ℕ) (text : List Char) :
    (opening array size text).text = behind array text ∧
      (array && (opening array size text).found) = false := by
  cases array <;> exact ⟨rfl, rfl⟩

/-- An import whose buffer could be filled until the file was at its end. -/
structure Filled {V : Type} (D : JSONDecoder V) (text : List Char) where
  maxSize : ℕ
  size : ℕ
  batchSize : ℕ
  outcome : Outcome Raised Unit
  pieces : List (List V)
  batch_pos : 0 < batchSize
  comes : Comes D maxSize size batchSize text outcome pieces
  unlimited : ¬Limited outcome

namespace Filled
variable {r r' : Filled D text}

/-- The same rows, and both normal ends or neither. -/
def Alike (r r' : Filled D text) : Prop :=
  r.pieces.flatten = r'.pieces.flatten ∧ (r.outcome = .ok () ↔ r'.outcome = .ok ())

/-- Where the end of a buffer of it makes a difference, and which. -/
def cuts (array : Bool) (r : Filled D text) : Set (List Char × List Char × Option V) :=
  Cuts D array r.maxSize (opening array r.size text)

theorem size_pos (r : Filled D text) : 0 < r.size :=
  size_pos_of_comes r.batch_pos r.comes r.unlimited

theorem stops (r : Filled D text) (hmark : text.head? = some (mark array)) : ∃ rows left,
    Runs D array r.maxSize (opening array r.size text) rows .stopIteration left ∧
      rows = r.pieces.flatten ∧ (r.outcome = .ok () ↔ closed array left = true) := by
  obtain ⟨rows, left, hruns, hcut, hok⟩ :=
    stops_of_comes r.size_pos r.batch_pos hmark r.comes r.unlimited
  exact ⟨rows, left, hruns, hcut.flatten_eq.symm, hok⟩

end Filled

end Files

/-! ### Given runs -/

section Settles
variable {V : Type} {D : JSONDecoder V} {maxSize size b fuel : ℕ} {text : List Char}
  {o : Outcome Raised Unit} {j : Job V}

end Settles

/-! ### Two commas -/

def commas : List Char := ['[', '{', '}', ',', ',', '{', '}', ']']

end RethinkDB.Import.Source
