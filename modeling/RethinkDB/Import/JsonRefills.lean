import RethinkDB.Import.JsonLayout

/-! How far the reader of a JSON file comes: to the end of it, unless a buffer that may not grow is
filled again with nothing in it passed over. -/
namespace RethinkDB.Import.Source
open RethinkDB.Lib Prog
open RethinkDB.Import.ReadToQueue (Cut)

section Reaches
variable {V : Type} (D : JSONDecoder V) (array : Bool) (maxSize : ℕ)

/-- What the reader comes to from `w` on: behind a row, and when its buffer has been filled. -/
inductive Reaches : Window → Window → Prop
  | refl (w : Window) : Reaches w w
  | row {w v : Window} {rest : List Char} {row : V} : w.line D array = (rest, some row) →
    Reaches (w.afterLine (rest, some row)) v → Reaches w v
  | refill {w w' v : Window} {rest : List Char} : w.line D array = (rest, none) →
    (w.afterLine (rest, (none : Option V))).fill maxSize = .ok w' → Reaches w' v → Reaches w v

namespace Window

/-- Nothing in a buffer that may not grow is passed over. -/
def Jams (w : Window) : Prop :=
  w.atStart = true ∧ w.line D array = (w.visible, none) ∧
    (w.size = maxSize ∨ maxSize < w.size ∧ maxSize < w.seen)

/-- What `fill_buffer` raises then. -/
def jam (w : Window) : Raised :=
  if w.size = maxSize then .attributeError "bytes_processed"
  else .assertionError "Can not set the read target and full the buffer"

end Window

/-- No buffer from `w` on jams. -/
def Unjammed (w : Window) : Prop := ∀ v, Reaches D array maxSize w v → ¬v.Jams D array maxSize

variable {D array maxSize}
variable {w w' v : Window} {rows rows' : List V} {row : V} {e e' : Raised}
  {left left' rest : List Char}

theorem Runs.unique (h : Runs D array maxSize w rows e left)
    (h' : Runs D array maxSize w rows' e' left') : rows = rows' ∧ e = e' ∧ left = left' := by
  induction h generalizing rows' with
  | row hline _ ih =>
    cases h' with
    | row hline' h' =>
      rw [hline] at hline'
      cases hline'
      obtain ⟨hrows, he, hleft⟩ := ih h'
      exact ⟨by rw [hrows], he, hleft⟩
    | refill hline' _ _ | unfilled hline' _ =>
      rw [hline] at hline'
      cases hline'
  | refill hline hfill _ ih =>
    cases h' with
    | row hline' _ =>
      rw [hline] at hline'
      cases hline'
    | refill hline' hfill' h' =>
      rw [hline] at hline'
      cases hline'
      rw [hfill] at hfill'
      cases hfill'
      exact ih h'
    | unfilled hline' hfill' =>
      rw [hline] at hline'
      cases hline'
      rw [hfill] at hfill'
      cases hfill'
  | unfilled hline hfill =>
    cases h' with
    | row hline' _ =>
      rw [hline] at hline'
      cases hline'
    | refill hline' hfill' _ =>
      rw [hline] at hline'
      cases hline'
      rw [hfill] at hfill'
      cases hfill'
    | unfilled hline' hfill' =>
      rw [hline] at hline'
      cases hline'
      rw [hfill] at hfill'
      cases hfill'
      exact ⟨rfl, rfl, rfl⟩

/-- Behind a row, or before it. -/
theorem Reaches.of_row (h : Reaches D array maxSize w v)
    (hline : w.line D array = (rest, some row)) :
    v = w ∨ Reaches D array maxSize (w.afterLine (rest, some row)) v := by
  cases h with
  | refl => exact .inl rfl
  | row hline' h =>
    rw [hline] at hline'
    cases hline'
    exact .inr h
  | refill hline' _ _ =>
    rw [hline] at hline'
    cases hline'

theorem Reaches.of_refill (h : Reaches D array maxSize w v) (hline : w.line D array = (rest, none))
    (hfill : (w.afterLine (rest, (none : Option V))).fill maxSize = .ok w') :
    v = w ∨ Reaches D array maxSize w' v := by
  cases h with
  | refl => exact .inl rfl
  | row hline' _ =>
    rw [hline] at hline'
    cases hline'
  | refill hline' hfill' h =>
    rw [hline] at hline'
    cases hline'
    rw [hfill] at hfill'
    cases hfill'
    exact .inr h

theorem Reaches.of_unfilled (h : Reaches D array maxSize w v)
    (hline : w.line D array = (rest, none))
    (hfill : (w.afterLine (rest, (none : Option V))).fill maxSize = .error e) : v = w := by
  cases h with
  | refl => rfl
  | row hline' _ =>
    rw [hline] at hline'
    cases hline'
  | refill hline' hfill' _ =>
    rw [hline] at hline'
    cases hline'
    rw [hfill] at hfill'
    cases hfill'

/-- What each line and each buffer preserves. -/
theorem Reaches.rule {I : Window → Prop} (h : Reaches D array maxSize w v)
    (hrow : ∀ {w rest row}, I w → w.line D array = (rest, some row) →
      I (w.afterLine (rest, some row)))
    (hrefill : ∀ {w w' rest}, I w → w.line D array = (rest, none) →
      (w.afterLine (rest, (none : Option V))).fill maxSize = .ok w' → I w')
    (hw : I w) : I v := by
  induction h with
  | refl => exact hw
  | row hline _ ih => exact ih (hrow hw hline)
  | refill hline hfill _ ih => exact ih (hrefill hw hline hfill)

theorem Reaches.sound (h : Reaches D array maxSize w v) (hw : w.Sound) : v.Sound :=
  h.rule (I := Window.Sound) (fun hw _ => hw.afterLine _)
    (fun hw _ hfill => (hw.afterLine _).fill hfill) hw

/-- The rest of a run is a run. -/
theorem Runs.reaches (h : Runs D array maxSize w rows e left)
    (hreaches : Reaches D array maxSize w v) :
    ∃ rows', Runs D array maxSize v rows' e left ∧ rows' <:+ rows := by
  induction h generalizing v with
  | @row w rest row rows e left hline hruns ih =>
    rcases hreaches.of_row hline with rfl | hreaches
    · exact ⟨_, .row hline hruns, List.suffix_rfl⟩
    · obtain ⟨rows', hruns', hsuffix⟩ := ih hreaches
      exact ⟨rows', hruns', hsuffix.trans (List.suffix_cons _ _)⟩
  | @refill w w' rest rows e left hline hfill hruns ih =>
    rcases hreaches.of_refill hline hfill with rfl | hreaches
    · exact ⟨_, .refill hline hfill hruns, List.suffix_rfl⟩
    · exact ih hreaches
  | @unfilled w rest e hline hfill =>
    rw [hreaches.of_unfilled hline hfill]
    exact ⟨_, .unfilled hline hfill, List.suffix_rfl⟩

theorem Window.visible_of_length (hw : w.Sound) {row : Option V}
    (hline : w.line D array = (rest, row))
    (hlength : rest.length = w.seen) : rest = w.visible := by
  have hsuffix := line_suffix D (array && w.found) w.visible
  unfold Window.line at hline
  rw [hline] at hsuffix
  exact hsuffix.eq_of_length (hlength.trans (w.visible_length hw).symm)

/-- A buffer that jams is not filled. -/
theorem Window.Jams.fill (h : w.Jams D array maxSize) (hw : w.Sound) :
    (w.afterLine (w.visible, (none : Option V))).fill maxSize = .error (w.jam maxSize) := by
  obtain ⟨hstart, -, hsize⟩ := h
  have hlength := w.visible_length hw
  unfold Window.fill Window.refill Window.widened Window.jam
  change (if (w.atStart && decide (w.seen - w.visible.length = 0)) = true ∧ w.size = maxSize then _
    else if (if (w.atStart && decide (w.seen - w.visible.length = 0)) = true
      then min (w.size * 2) maxSize else w.size) < w.seen - (w.seen - w.visible.length) then _
    else _) = _
  rw [hlength, Nat.sub_self, hstart]
  rcases hsize with hsize | ⟨hsize, hseen⟩
  · simp [hsize]
  · have hmin : min (w.size * 2) maxSize < w.seen := by omega
    simp [Nat.ne_of_gt hsize, hmin]

/-- Only a buffer that jams is not filled before the file has ended. -/
theorem fill_error (hw : w.Sound) (hline : w.line D array = (rest, none))
    (hfill : (w.afterLine (rest, (none : Option V))).fill maxSize = .error e) :
    e = .stopIteration ∨ w.Jams D array maxSize ∧ e = w.jam maxSize := by
  have hle := Window.line_le hw hline
  have hafter := hw.afterLine (rest, (none : Option V))
  by_cases hjams : w.Jams D array maxSize
  · have hvisible : rest = w.visible := by
      have hsame := hjams.2.1
      rw [hline] at hsame
      exact (Prod.mk.inj hsame).1
    rw [hvisible, hjams.fill hw] at hfill
    cases hfill
    exact .inr ⟨hjams, rfl⟩
  · left
    have hkept (hstart : (w.afterLine (rest, (none : Option V))).atStart = true) :
        w.atStart = true ∧ w.line D array = (w.visible, none) ∧ rest.length = w.seen := by
      change (w.atStart && decide (w.seen - rest.length = 0)) = true at hstart
      rw [Bool.and_eq_true, decide_eq_true_eq] at hstart
      have hlength : rest.length = w.seen := by omega
      rw [← Window.visible_of_length hw hline hlength]
      exact ⟨hstart.1, hline, hlength⟩
    unfold Window.fill Window.refill at hfill
    split_ifs at hfill with hmax hless hend
    · obtain ⟨hstart, hvisible, -⟩ := hkept hmax.1
      exact absurd ⟨hstart, hvisible, .inl hmax.2⟩ hjams
    · unfold Window.widened at hless
      split_ifs at hless with hstart
      · obtain ⟨hstart', hvisible, hlength⟩ := hkept hstart
        have hseen := hafter.start hstart
        change min (w.size * 2) maxSize < w.seen - (w.seen - rest.length) at hless
        change _ ∧ w.seen - (w.seen - rest.length) ≤ w.size + 1 at hseen
        have hpos := hw.size_pos
        have hother : w.size ≠ maxSize := fun h => hmax ⟨hstart, h⟩
        exact absurd ⟨hstart', hvisible, .inr (by omega)⟩ hjams
      · have hroom := hafter.room (by simpa using hstart)
        omega
    · cases hfill
      rfl

theorem Window.jam_ne (w : Window) : w.jam maxSize ≠ .stopIteration := by
  unfold Window.jam
  split_ifs <;> simp

theorem Window.Jams.runs (h : w.Jams D array maxSize) (hw : w.Sound) :
    Runs D array maxSize w [] (w.jam maxSize) w.visible := .unfilled h.2.1 (h.fill hw)

/-- A run goes on to what it reaches. -/
theorem Reaches.runs (h : Reaches D array maxSize w v)
    (hruns : Runs D array maxSize v rows e left) :
    ∃ rows', Runs D array maxSize w rows' e left := by
  induction h with
  | refl => exact ⟨rows, hruns⟩
  | row hline _ ih =>
    obtain ⟨rows', hruns'⟩ := ih hruns
    exact ⟨_, .row hline hruns'⟩
  | refill hline hfill _ ih =>
    obtain ⟨rows', hruns'⟩ := ih hruns
    exact ⟨_, .refill hline hfill hruns'⟩

/-- A run ends with the file, unless a buffer jams on the way. -/
theorem Runs.jams (h : Runs D array maxSize w rows e left) (hw : w.Sound) :
    e = .stopIteration ∧ Unjammed D array maxSize w ∨
      ∃ v, Reaches D array maxSize w v ∧ v.Jams D array maxSize ∧ e = v.jam maxSize := by
  induction h with
  | @row w rest row rows e left hline _ ih =>
    rcases ih (hw.afterLine _) with ⟨he, hnone⟩ | ⟨v, hreaches, hjams⟩
    · refine .inl ⟨he, fun v hreaches hjams => ?_⟩
      rcases hreaches.of_row hline with rfl | hreaches
      · rw [hjams.2.1] at hline
        cases hline
      · exact hnone v hreaches hjams
    · exact .inr ⟨v, .row hline hreaches, hjams⟩
  | @refill w w' rest rows e left hline hfill _ ih =>
    rcases ih ((hw.afterLine _).fill hfill) with ⟨he, hnone⟩ | ⟨v, hreaches, hjams⟩
    · refine .inl ⟨he, fun v hreaches hjams => ?_⟩
      rcases hreaches.of_refill hline hfill with rfl | hreaches
      · have hsame := hjams.2.1
        rw [hline] at hsame
        rw [(Prod.mk.inj hsame).1, hjams.fill hw] at hfill
        cases hfill
      · exact hnone v hreaches hjams
    · exact .inr ⟨v, .refill hline hfill hreaches, hjams⟩
  | @unfilled w rest e hline hfill =>
    rcases fill_error hw hline hfill with rfl | ⟨hjams, he⟩
    · refine .inl ⟨rfl, fun v hreaches hjams => ?_⟩
      obtain rfl := hreaches.of_unfilled hline hfill
      have hsame := hjams.2.1
      rw [hline] at hsame
      rw [(Prod.mk.inj hsame).1, hjams.fill hw] at hfill
      exact Window.jam_ne _ (Except.error.inj hfill)
    · exact .inr ⟨w, .refl w, hjams, he⟩

end Reaches

/-! ### Files of documents -/

namespace Window

/-- A buffer begins with the bracket that closes the array. -/
def Closing (w : Window) : Prop := w.atStart = true ∧ w.text.head? = some ']'

/-- It does, and may not grow. -/
def Shut (maxSize : ℕ) (w : Window) : Prop :=
  w.Closing ∧ (w.size = maxSize ∨ maxSize < w.size ∧ maxSize < w.text.length)

/-- The reader is led by `A`, its buffer holding what it can. -/
structure Led {V : Type} (array : Bool) (A : Bool → List Char → List V → Prop) (w : Window) :
    Prop where
  sound : w.Sound
  full : w.Full
  ahead : ∃ rows, A (array && w.found) w.text rows

end Window

section Closing
variable {V : Type} {D : JSONDecoder V} {array accepted : Bool} {maxSize size b n : ℕ}
  {A : Bool → List Char → List V → Prop} {ends : List Char → Prop} {w v : Window} {text : List Char}
  {rows : List V}

theorem Reaches.led (hguide : Guide D array accepted A) (h : Reaches D array maxSize w v)
    (hw : w.Led array A) : v.Led array A := by
  apply h.rule (I := Window.Led array A) ?_ ?_ hw
  · intro w rest row hw hline
    have hless := line_row_length hline
    rw [w.visible_length hw.sound] at hless
    obtain ⟨rows, hahead⟩ := hw.ahead
    obtain ⟨rows', -, hahead'⟩ := hguide.row hahead hw.sound.seen_le hline
    refine ⟨hw.sound.afterLine _, fun hstart => ?_, rows', ?_⟩
    · change (w.atStart && decide (w.seen - rest.length = 0)) = true at hstart
      rw [Bool.and_eq_true, decide_eq_true_eq] at hstart
      omega
    · have hflag : (array && (w.afterLine (rest, some row)).found) = array := by
        change (array && (w.found || true)) = array
        rw [Bool.or_true, Bool.and_true]
      rw [hflag]
      exact hahead'
  · intro w w' rest hw hline hfill
    obtain ⟨rows, hahead⟩ := hw.ahead
    have hmore := hguide.more hahead hw.sound.seen_le hline
    obtain ⟨-, -, -, hw'⟩ := Window.fill_ok_iff.mp hfill
    refine ⟨(hw.sound.afterLine _).fill hfill, fun _ => ?_, rows, ?_⟩
    · rw [hw']
      dsimp only
      omega
    · have hflag : (array && w'.found) = (array && w.found) := by
        rw [hw']
        change (array && (w.found || false)) = _
        rw [Bool.or_false]
      have htext : w'.text = w.text.drop (w.seen - rest.length) := by
        rw [hw']
        rfl
      rw [hflag, htext]
      exact hmore

/-- A bracket that is shut jams the buffer. -/
theorem Window.Shut.jams (h : w.Shut maxSize) (hw : w.Sound) (hfull : w.Full) :
    w.Jams D array maxSize := by
  obtain ⟨⟨hstart, hhead⟩, hsize⟩ := h
  obtain ⟨close, htext⟩ : ∃ close, w.text = ']' :: close := by
    cases hcs : w.text with
    | nil =>
      rw [hcs] at hhead
      cases hhead
    | cons c close =>
      rw [hcs] at hhead
      cases hhead
      exact ⟨close, rfl⟩
  have hpos := (hw.start hstart).1
  have hvisible : w.visible = ']' :: close.take (w.seen - 1) := by
    unfold Window.visible
    rw [htext, List.take_cons hpos]
  refine ⟨hstart, ?_, ?_⟩
  · unfold Window.line
    rw [hvisible]
    exact line_bracket white_nil
  · rcases hfull hstart with hall | hroom | ⟨-, hbrace⟩
    · rw [hall]
      exact hsize
    · omega
    · rw [hhead] at hbrace
      cases hbrace

/-- Documents no longer than the maximum do not jam it. -/
theorem Window.Jams.shut (h : w.Jams D array maxSize)
    (hw : w.Led array (Reads D array (2 * maxSize + 1) ends)) : array = true ∧ w.Shut maxSize := by
  obtain ⟨hstart, hline, hsize⟩ := h
  obtain ⟨rows, c, hc, hahead⟩ := hw.ahead
  obtain ⟨hpos, -⟩ := hw.sound.start hstart
  have hseen := hw.sound.seen_le
  have hlength := w.visible_length hw.sound
  have hfull := hw.full hstart
  unfold Window.line at hline
  generalize htext : w.text = text at hahead
  cases hahead with
  | close hclosed _ =>
    rw [← htext] at hclosed
    cases array with
    | false =>
      have hwhite := closed_false_iff.mp hclosed
      rw [Window.visible, line_white (hwhite.take _)] at hline
      have hnil := (Prod.mk.inj hline).1
      rw [Window.visible, ← hnil] at hlength
      rw [List.length_nil] at hlength
      omega
    | true =>
      obtain ⟨ws, close, hbracket, hws, -⟩ := closed_true_iff.mp hclosed
      have hnil : ws = [] := by
        cases ws with
        | nil => rfl
        | cons c cs =>
          have hle := (line_suffix_skip D (true && w.found) w.visible).length_le
          have hspace : Json.isWhitespace c = true := hws c List.mem_cons_self
          have hvisible : w.visible = c :: (cs ++ ']' :: close).take (w.seen - 1) := by
            unfold Window.visible
            rw [hbracket, List.cons_append, List.take_cons hpos]
          have hskip := (Json.skip_suffix ((cs ++ ']' :: close).take (w.seen - 1))).length_le
          rw [hline, hvisible] at hle
          unfold Json.skip at hle hskip
          rw [List.dropWhile_cons_of_pos hspace] at hle
          rw [List.length_cons] at hle
          omega
      subst hnil
      refine ⟨rfl, ⟨hstart, by rw [hbracket]; rfl⟩, ?_⟩
      omega
  | @item ws doc rest value rows' hws hdoc hshort hrest =>
    exfalso
    rw [Window.visible, htext] at hline hlength
    rw [htext] at hseen hfull
    have hseen' := hseen
    rcases line_item_cases hws hdoc hseen hline with ⟨hrow, -⟩ | ⟨-, hless, -, hsame⟩
    · cases hrow
    · have hpart := hsame hlength hpos
      rw [List.length_append, List.length_append] at hfull
      omega
  | @comma ws rest value rows' hws hitem =>
    exfalso
    rw [hc rfl, Window.visible, htext] at hline
    rw [Window.visible, htext] at hlength
    rw [htext] at hseen hfull
    have hroom := hw.sound.size_pos
    have hitem' := item_length hitem
    rcases line_comma_cases hws hseen hline with ⟨-, -, -, hsame⟩ | ⟨-, -, -, hsame⟩ |
      ⟨k, -, -, -, -, hsame, -⟩
    · obtain ⟨hone, rfl⟩ := hsame hlength hpos
      rw [hone, List.nil_append, List.length_cons] at hfull
      rcases hfull with hall | hless | ⟨-, hbrace⟩
      · omega
      · omega
      · cases hbrace
    · exact hsame hlength
    · exact hsame hlength

/-- Only an array has a closing bracket. -/
theorem Reads.array_of_bracket {comma : Bool} (h : Reads D array n ends comma text rows)
    (hhead : text.head? = some ']') : array = true := by
  obtain ⟨c, -, hahead⟩ := h
  cases array with
  | true => rfl
  | false =>
    exfalso
    cases hahead with
    | close hclosed => exact (closed_false_iff.mp hclosed).head (by decide) hhead
    | @item ws doc rest _ _ hws hdoc =>
      cases ws with
      | nil =>
        obtain ⟨cs, rfl, -⟩ := document_cons hdoc
        cases hhead
      | cons c cs => exact (hws.take 1).head (by decide) hhead
    | @comma ws rest _ _ hws =>
      cases ws with
      | nil => cases hhead
      | cons c cs => exact (hws.take 1).head (by decide) hhead

theorem Importable.led (h : Importable D n ends array text rows) (hpos : 0 < size) :
    (Source.opening array size text).Led array (Reads D array n ends) := by
  have hne : text ≠ [] := by
    intro hnil
    have := h.mark
    rw [hnil] at this
    cases this
  exact ⟨sound_opening array hpos hne, full_opening h.mark, rows, h.opening size⟩

/-- Documents no longer than the maximum are read if no buffer that may not grow begins with the
closing bracket. -/
theorem Window.Led.runs_open (hends : ∀ {text rest}, rest <:+ text → ends text → ends rest)
    (hw : w.Led array (Reads D array (2 * maxSize + 1) ends))
    (hreads : Reads D array (2 * maxSize + 1) ends (array && w.found) w.text rows)
    (hopen : ∀ v, Reaches D array maxSize w v → ¬v.Shut maxSize) :
    ∃ left, Runs D array maxSize w rows .stopIteration left ∧ closed array left = true := by
  have hguide : Guide D array true (Reads D array (2 * maxSize + 1) ends) := guide_reads hends
  have htotal : ∃ rows e left, Runs D array maxSize w rows e left := runs_total _ hw.sound
  obtain ⟨rows', e, left, hruns⟩ := htotal
  rcases hruns.jams hw.sound with ⟨rfl, -⟩ | ⟨v, hreaches, hjams, -⟩
  · obtain ⟨rfl, hclosed⟩ := hruns.follow hguide hw.sound hreads rfl
    exact ⟨left, hruns, hclosed⟩
  · have hshut := hjams.shut (hreaches.led hguide hw)
    exact absurd hshut.2 (hopen v hreaches)

/-- Where one does, that is the end. -/
theorem Window.Led.runs_shut (hends : ∀ {text rest}, rest <:+ text → ends text → ends rest)
    (hw : w.Led array (Reads D array n ends)) (hreaches : Reaches D array maxSize w v)
    (hshut : v.Shut maxSize) :
    ∃ rows left, Runs D array maxSize w rows (v.jam maxSize) left := by
  have hv := hreaches.led (guide_reads hends) hw
  have hjams : v.Jams D array maxSize := hshut.jams hv.sound hv.full
  obtain ⟨rows, hruns⟩ := hreaches.runs (hjams.runs hv.sound)
  exact ⟨rows, _, hruns⟩

/-- A file of documents no longer than the maximum is imported exactly if no buffer that may not
grow begins with its closing bracket. -/
theorem imports_iff (hends : ∀ {text rest}, rest <:+ text → ends text → ends rest)
    (h : Importable D (2 * maxSize + 1) ends array text rows) (hpos : 0 < size) (hb : 0 < b) :
    (∃ pieces, Comes D maxSize size b text (.ok ()) pieces ∧ Cut b rows pieces) ↔
      ∀ w, Reaches D array maxSize (Source.opening array size text) w → ¬w.Shut maxSize := by
  have hled := h.led hpos
  constructor
  · intro himported w hreaches hshut
    obtain ⟨pieces, hcomes, -⟩ := himported
    obtain ⟨rows', left, hruns⟩ := hled.runs_shut hends hreaches hshut
    obtain ⟨o, pieces', hfails, -, -, herror⟩ := comes_of_opening hpos hb h.mark hruns
    rw [herror w.jam_ne] at hfails
    cases (hcomes.unique hfails).1
  · intro hopen
    obtain ⟨left, hruns, hclosed⟩ := hled.runs_open hends (h.opening size) hopen
    obtain ⟨o, pieces, hcomes, -, hok, -⟩ := comes_of_opening hpos hb h.mark hruns
    obtain ⟨hcut, hiff⟩ := hok rfl
    rw [hiff.mpr hclosed] at hcomes
    exact ⟨pieces, hcomes, hcut⟩

end Closing
end RethinkDB.Import.Source
