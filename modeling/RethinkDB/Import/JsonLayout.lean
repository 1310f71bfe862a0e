import RethinkDB.Import.JsonImport

/-! Well-formed JSON files: the documents of one are what its import yields. -/
namespace RethinkDB.Import.Source
open RethinkDB.Lib
open RethinkDB.Import.ReadToQueue (Cut)

/-! ### Layouts -/

def White (cs : List Char) : Prop := ∀ c ∈ cs, Json.isWhitespace c = true

section Layout
variable {V : Type} (D : JSONDecoder V) (array : Bool) (maxSize : ℕ) (ends : List Char → Prop)

/-- What is left of a file after an item (behind its comma, if there has to be one) or before the
first. Each document is shorter than half the maximum. -/
inductive Ahead : Bool → List Char → List V → Prop
  | close {comma : Bool} {text : List Char} : closed array text = true → ends text →
    Ahead comma text []
  | item {ws doc rest : List Char} {value : V} {rows : List V} : White ws → D.Document doc value →
    2 * doc.length < maxSize → Ahead array rest rows →
    Ahead false (ws ++ (doc ++ rest)) (value :: rows)
  | comma {ws rest : List Char} {value : V} {rows : List V} : White ws →
    Ahead false rest (value :: rows) → Ahead true (ws ++ ',' :: rest) (value :: rows)

end Layout

/-- What closes a file, without leading whitespace, is not too long for a buffer to be doubled. -/
def Ending (maxSize : ℕ) (text : List Char) : Prop := 2 * (Json.skip text).length < maxSize + 4

theorem white_nil : White [] := by simp [White]

theorem white_newline : White ['\n'] := by
  intro c hc
  rw [List.mem_singleton.mp hc]
  decide

theorem White.drop {ws : List Char} (h : White ws) (n : ℕ) : White (ws.drop n) :=
  fun c hc => h c (List.mem_of_mem_drop hc)

theorem White.take {ws : List Char} (h : White ws) (n : ℕ) : White (ws.take n) :=
  fun c hc => h c (List.mem_of_mem_take hc)

theorem skip_white {ws : List Char} (h : White ws) (rest : List Char) :
    Json.skip (ws ++ rest) = Json.skip rest := by
  unfold Json.skip
  rw [List.dropWhile_append_of_pos h]

theorem skip_nil_iff {cs : List Char} : Json.skip cs = [] ↔ White cs := by
  unfold Json.skip White
  rw [List.dropWhile_eq_nil_iff]

theorem Ending.suffix {maxSize : ℕ} {text rest : List Char} (hrest : rest <:+ text)
    (h : Ending maxSize text) : Ending maxSize rest := by
  obtain ⟨start, rfl⟩ := hrest
  have hle : (Json.skip rest).length ≤ (Json.skip (start ++ rest)).length := by
    unfold Json.skip
    rw [List.dropWhile_append]
    split_ifs
    · exact Nat.le_refl _
    · rw [List.length_append]
      exact (List.dropWhile_suffix _).length_le.trans (Nat.le_add_left _ _)
  unfold Ending at h ⊢
  omega

section Line
variable {V : Type} {D : JSONDecoder V} {array : Bool} {maxSize n : ℕ} {comma : Bool}

/-- Only whitespace is seen. -/
theorem line_white {cs : List Char} (h : White cs) : line D comma cs = ([], none) := by
  have hpast : past comma cs = [] := by
    have hskip := skip_nil_iff.mpr h
    rw [past_neg (.inl (by rw [hskip]; exact Nat.zero_le 1)), hskip]
  rw [line_short (by rw [hpast]; exact Nat.zero_le 1), hpast]

/-- What follows whitespace and is not a comma. -/
theorem past_cons {ws cs : List Char} {c : Char} (hws : White ws) (hc : Json.isWhitespace c = false)
    (hcomma : comma = false ∨ c ≠ ',') : past comma (ws ++ c :: cs) = c :: cs := by
  have hskip : Json.skip (ws ++ c :: cs) = c :: cs := by rw [skip_white hws, Json.skip_cons hc]
  rw [past_neg, hskip]
  right
  rw [hskip]
  intro ⟨hflag, hhead⟩
  rcases hcomma with h | h
  · rw [h] at hflag
    cases hflag
  · exact h (Option.some.inj hhead)

theorem line_of_past {cs rest : List Char} (hpast : past comma cs = rest)
    (hdecode : D.rawDecode rest = none) : line D comma cs = (rest, none) := by
  unfold line
  rw [hpast]
  dsimp only
  split_ifs
  · rfl
  · rw [hdecode]

/-- A closing bracket is not passed over. -/
theorem line_bracket {ws close : List Char} (hws : White ws) :
    line D comma (ws ++ ']' :: close) = (']' :: close, none) :=
  line_of_past (past_cons hws (by decide) (.inr (by decide))) (D.bracket close)

theorem document_cons {doc : List Char} {value : V} (h : D.Document doc value) :
    ∃ cs, doc = '{' :: cs ∧ 0 < cs.length := by
  obtain ⟨body, hbody⟩ := D.braces h
  exact ⟨body ++ ['}'], hbody, by simp⟩

/-- Some of a document is not passed over. -/
theorem line_part {ws doc : List Char} {value : V} (hws : White ws) (hdoc : D.Document doc value)
    (hpos : 0 < n) (hless : n < doc.length) :
    line D comma (ws ++ doc.take n) = (doc.take n, none) := by
  obtain ⟨cs, hcs, -⟩ := document_cons hdoc
  have htake : doc.take n = '{' :: cs.take (n - 1) := by
    rw [hcs, List.take_cons hpos]
  apply line_of_past
  · rw [htake]
    exact past_cons hws (by decide) (.inr (by decide))
  · exact D.fails hdoc hless

theorem line_document {ws doc rest : List Char} {value : V} (hws : White ws)
    (hdoc : D.Document doc value) : line D comma (ws ++ (doc ++ rest)) = (rest, some value) := by
  obtain ⟨cs, hcs, hlength⟩ := document_cons hdoc
  have hpast : past comma (ws ++ (doc ++ rest)) = doc ++ rest := by
    rw [hcs]
    exact past_cons hws (by decide) (.inr (by decide))
  have hlong : ¬(doc ++ rest).length ≤ 1 := by
    rw [hcs, List.length_append, List.length_cons]
    omega
  unfold line
  rw [hpast]
  dsimp only
  rw [if_neg hlong, D.decodes rest hdoc]
  dsimp only
  rw [List.drop_left]

/-- A comma that is seen with more than a character behind it makes no difference. -/
theorem line_comma {ws cs : List Char} (hws : White ws) (hlength : 2 ≤ cs.length) :
    line D true (ws ++ ',' :: cs) = line D false cs := by
  have hskip : Json.skip (ws ++ ',' :: cs) = ',' :: cs := by
    rw [skip_white hws, Json.skip_cons (by decide)]
  have hpast : past true (ws ++ ',' :: cs) = Json.skip cs := by
    rw [past_pos (by rw [hskip, List.length_cons]; omega) (by rw [hskip]; exact ⟨rfl, rfl⟩), hskip,
      List.tail_cons, if_neg (by omega)]
  have hpast' : past false cs = Json.skip cs := by
    apply past_neg
    right
    intro ⟨h, _⟩
    cases h
  unfold line
  rw [hpast, hpast']

/-- What a line makes of the start of an item. -/
theorem line_item {ws doc rest : List Char} {value : V} (hws : White ws)
    (hdoc : D.Document doc value) (n : ℕ) :
    line D comma ((ws ++ (doc ++ rest)).take n) =
      if n < ws.length + doc.length then (doc.take (n - ws.length), none)
      else (rest.take (n - ws.length - doc.length), some value) := by
  rw [List.take_append, List.take_append]
  split_ifs with hless
  · have hrest : n - ws.length - doc.length = 0 := by omega
    rw [hrest, List.take_zero, List.append_nil]
    by_cases hpos : 0 < n - ws.length
    · rw [List.take_of_length_le (by omega)]
      exact line_part hws hdoc hpos (by omega)
    · have hzero : n - ws.length = 0 := by omega
      rw [hzero, List.take_zero, List.append_nil]
      exact line_white (hws.take n)
  · rw [List.take_of_length_le (by omega), List.take_of_length_le (l := doc) (by omega)]
    exact line_document hws hdoc

theorem closed_true_iff {text : List Char} : closed true text = true ↔
    ∃ ws close, text = ws ++ ']' :: close ∧ White ws ∧ White close := by
  constructor
  · intro h
    have hsplit := (List.takeWhile_append_dropWhile (p := Json.isWhitespace) (l := text)).symm
    have hws : White (text.takeWhile Json.isWhitespace) := fun c hc => List.mem_takeWhile_imp hc
    change text = _ ++ Json.skip text at hsplit
    cases hskip : Json.skip text with
    | nil =>
      simp [closed, hskip] at h
    | cons c close =>
      rw [hskip] at hsplit
      by_cases hc : c = ']'
      · subst hc
        simp only [closed, hskip, decide_eq_true_eq] at h
        exact ⟨_, close, hsplit, hws, skip_nil_iff.mp h⟩
      · simp [closed, hskip, hc] at h
  · rintro ⟨ws, close, rfl, hws, hclose⟩
    unfold closed
    rw [skip_white hws, Json.skip_cons (by decide)]
    exact decide_eq_true (skip_nil_iff.mpr hclose)

theorem closed_false_iff {text : List Char} : closed false text = true ↔ White text := by
  unfold closed
  exact decide_eq_true_iff.trans skip_nil_iff

theorem White.head {text : List Char} {c : Char} (h : White text) (hc : Json.isWhitespace c = false) :
    text.head? ≠ some c := by
  intro hhead
  have := h c (List.mem_of_mem_head? hhead)
  rw [hc] at this
  cases this

/-- What a line makes of the start of what closes a file. -/
theorem line_closed {text rest : List Char} {row : Option V} (h : closed array text = true)
    (hn : n ≤ text.length) (hline : line D comma (text.take n) = (rest, row)) :
    row = none ∧ closed array (text.drop (n - rest.length)) = true ∧
      (Json.skip (text.drop (n - rest.length))).length ≤ (Json.skip text).length ∧
      (rest.length = n → n < text.length →
        (0 < n → n < (Json.skip text).length) ∧ text.head? ≠ some '{') := by
  cases array with
  | false =>
    have hwhite := closed_false_iff.mp h
    rw [line_white (hwhite.take n)] at hline
    cases hline
    have hdrop := hwhite.drop n
    refine ⟨rfl, closed_false_iff.mpr hdrop, ?_, fun hzero _ => ?_⟩
    · rw [List.length_nil, Nat.sub_zero, skip_nil_iff.mpr hdrop]
      exact Nat.zero_le _
    · rw [List.length_nil] at hzero
      exact ⟨by omega, hwhite.head (by decide)⟩
  | true =>
    obtain ⟨ws, close, rfl, hws, hclose⟩ := closed_true_iff.mp h
    rw [skip_white hws, Json.skip_cons (by decide)]
    by_cases hseen : n ≤ ws.length
    · have htake : (ws ++ ']' :: close).take n = ws.take n := List.take_append_of_le_length hseen
      have hdrop : (ws ++ ']' :: close).drop n = ws.drop n ++ ']' :: close :=
        List.drop_append_of_le_length hseen
      rw [htake, line_white (hws.take n)] at hline
      cases hline
      rw [List.length_nil, Nat.sub_zero, hdrop, skip_white (hws.drop n), Json.skip_cons (by decide)]
      refine ⟨rfl, closed_true_iff.mpr ⟨_, close, rfl, hws.drop n, hclose⟩, Nat.le_refl _,
        fun hzero _ => ⟨by omega, ?_⟩⟩
      cases ws with
      | nil => simp
      | cons c ws => exact (hws.take 1).head (by decide)
    · obtain ⟨k, hk⟩ : ∃ k, n = ws.length + (k + 1) := ⟨n - ws.length - 1, by omega⟩
      have htake : (ws ++ ']' :: close).take n = ws ++ ']' :: close.take k := by
        rw [hk, List.take_length_add_append, List.take_succ_cons]
      rw [htake, line_bracket hws] at hline
      cases hline
      have hlength : (ws ++ ']' :: close).length = ws.length + (close.length + 1) := by simp
      have hkept : n - (']' :: close.take k).length = ws.length := by
        rw [List.length_cons, List.length_take]
        omega
      rw [hkept, List.drop_left, Json.skip_cons (by decide)]
      refine ⟨rfl, closed_true_iff.mpr ⟨[], close, rfl, by simp [White], hclose⟩, Nat.le_refl _,
        fun hsame hless => ?_⟩
      have hnil : ws = [] := by
        apply List.eq_nil_of_length_eq_zero
        omega
      rw [hlength] at hless
      rw [List.length_cons, hnil]
      rw [hnil] at hless
      exact ⟨fun _ => by simpa using hless, by simp⟩

/-- The cases of a line at an item. -/
theorem line_item_cases {ws doc rest left : List Char} {value : V} {row : Option V} (hws : White ws)
    (hdoc : D.Document doc value) (hn : n ≤ (ws ++ (doc ++ rest)).length)
    (hline : line D comma ((ws ++ (doc ++ rest)).take n) = (left, row)) :
    (row = some value ∧ (ws ++ (doc ++ rest)).drop (n - left.length) = rest) ∨
      row = none ∧ n < ws.length + doc.length ∧
        (ws ++ (doc ++ rest)).drop (n - left.length) = ws.drop n ++ (doc ++ rest) ∧
        (left.length = n → 0 < n → n < doc.length) := by
  rw [line_item hws hdoc] at hline
  rw [List.length_append, List.length_append] at hn
  split_ifs at hline with hless
  · cases hline
    right
    rw [List.length_take]
    refine ⟨rfl, hless, ?_, by omega⟩
    by_cases hseen : n ≤ ws.length
    · rw [show n - min (n - ws.length) doc.length = n by omega, List.drop_append_of_le_length hseen]
    · rw [show n - min (n - ws.length) doc.length = ws.length by omega, List.drop_left,
        List.drop_eq_nil_of_le (by omega), List.nil_append]
  · cases hline
    left
    rw [List.length_take]
    refine ⟨rfl, ?_⟩
    rw [show n - min (n - ws.length - doc.length) rest.length = ws.length + doc.length by omega,
      ← List.append_assoc, ← List.length_append, List.drop_left]

/-- The cases of a line at a comma. -/
theorem line_comma_cases {ws rest left : List Char} {row : Option V} (hws : White ws)
    (hn : n ≤ (ws ++ ',' :: rest).length)
    (hline : line D true ((ws ++ ',' :: rest).take n) = (left, row)) :
    (row = none ∧ n ≤ ws.length + 1 ∧
        (ws ++ ',' :: rest).drop (n - left.length) = ws.drop n ++ ',' :: rest ∧
        (left.length = n → 0 < n → n = 1 ∧ ws = [])) ∨
      (row = none ∧ n = ws.length + 2 ∧ (ws ++ ',' :: rest).drop (n - left.length) = rest ∧
        left.length ≠ n) ∨
      ∃ k, n = ws.length + 1 + k ∧ 2 ≤ k ∧ k ≤ rest.length ∧
        line D false (rest.take k) = (left, row) ∧ left.length ≠ n ∧
        (ws ++ ',' :: rest).drop (n - left.length) = rest.drop (k - left.length) := by
  have hcomma : Json.isWhitespace ',' = false := by decide
  rw [List.length_append, List.length_cons] at hn
  by_cases hseen : n ≤ ws.length
  · rw [List.take_append_of_le_length hseen, line_white (hws.take n)] at hline
    cases hline
    left
    refine ⟨rfl, by omega, List.drop_append_of_le_length hseen, fun hzero _ => ?_⟩
    rw [List.length_nil] at hzero
    omega
  · obtain ⟨k, hk⟩ : ∃ k, n = ws.length + (k + 1) := ⟨n - ws.length - 1, by omega⟩
    have htake : (ws ++ ',' :: rest).take n = ws ++ ',' :: rest.take k := by
      rw [hk, List.take_length_add_append, List.take_succ_cons]
    have hskip : Json.skip (ws ++ ',' :: rest.take k) = ',' :: rest.take k := by
      rw [skip_white hws, Json.skip_cons hcomma]
    have hlength : (rest.take k).length = k := by
      rw [List.length_take]
      omega
    rw [htake] at hline
    by_cases hzero : k = 0
    · subst hzero
      have hpast : past true (ws ++ ',' :: rest.take 0) = [','] := by
        rw [past_neg (.inl (by rw [hskip]; simp)), hskip]
        rfl
      rw [line_short (by rw [hpast]; simp), hpast] at hline
      cases hline
      left
      have hkept : n - [','].length = ws.length := by simp [hk]
      rw [hkept, List.drop_left, List.drop_eq_nil_of_le (by omega)]
      refine ⟨rfl, by omega, rfl, fun hone _ => ?_⟩
      rw [List.length_singleton] at hone
      exact ⟨hone.symm, List.eq_nil_of_length_eq_zero (by omega)⟩
    · right
      by_cases hone : k = 1
      · have hpast : past true (ws ++ ',' :: rest.take k) = rest.take k := by
          rw [past_pos (by rw [hskip, List.length_cons]; omega) (by rw [hskip]; exact ⟨rfl, rfl⟩),
            hskip, List.tail_cons, if_pos (by omega)]
        rw [line_short (by rw [hpast]; omega), hpast] at hline
        cases hline
        left
        rw [hlength]
        have hkept : n - k = (ws ++ [',']).length := by
          rw [List.length_append, List.length_singleton]
          omega
        have hsplit : ws ++ ',' :: rest = (ws ++ [',']) ++ rest := by simp
        rw [hkept, hsplit, List.drop_left]
        exact ⟨rfl, by omega, rfl, by omega⟩
      · right
        rw [line_comma hws (by omega)] at hline
        have hsuffix := line_suffix D false (rest.take k)
        rw [hline] at hsuffix
        have hle : left.length ≤ k := hlength ▸ hsuffix.length_le
        refine ⟨k, by omega, by omega, by omega, hline, by omega, ?_⟩
        have hsplit : ws ++ ',' :: rest = (ws ++ [',']) ++ rest := by simp
        have hkept : n - left.length = (ws ++ [',']).length + (k - left.length) := by
          rw [List.length_append, List.length_singleton]
          omega
        rw [hkept, hsplit, List.drop_length_add_append]

end Line

/-! ### The documents ahead -/

section Reads
variable {V : Type} {D : JSONDecoder V} {array : Bool} {maxSize n : ℕ} {comma : Bool}
  {text left : List Char} {rows : List V} {ends : List Char → Prop}

/-- The documents ahead of a reader that passes over a comma, or does not. -/
def Reads (D : JSONDecoder V) (array : Bool) (maxSize : ℕ) (ends : List Char → Prop) (comma : Bool)
    (text : List Char) (rows : List V) : Prop :=
  ∃ c, (c = true → comma = true) ∧ Ahead D array maxSize ends c text rows

/-- The reader passes over commas in an array. -/
theorem Ahead.reads {c : Bool} (h : Ahead D array maxSize ends c text rows)
    (hc : c = true → comma = true) : Reads D array maxSize ends comma text rows := ⟨c, hc, h⟩

theorem item_step {value : V} (h : Ahead D array maxSize ends false text (value :: rows))
    (hn : n ≤ text.length) {row : Option V} (hline : line D comma (text.take n) = (left, row)) :
    (row = some value ∧ Ahead D array maxSize ends array (text.drop (n - left.length)) rows) ∨
      row = none ∧ n < text.length ∧
        Ahead D array maxSize ends false (text.drop (n - left.length)) (value :: rows) ∧
        (left.length = n → 2 * n < maxSize) := by
  cases h with
  | @item ws doc rest _ _ hws hdoc hshort hrest =>
    rcases line_item_cases hws hdoc hn hline with ⟨hrow, hdrop⟩ | ⟨hrow, hless, hdrop, hsame⟩
    · left
      rw [hdrop]
      exact ⟨hrow, hrest⟩
    · right
      rw [hdrop]
      refine ⟨hrow, ?_, .item (hws.drop n) hdoc hshort hrest, fun h => ?_⟩
      · rw [List.length_append, List.length_append]
        omega
      · rcases Nat.eq_zero_or_pos n with hzero | hpos
        · omega
        · have := hsame h hpos
          omega

theorem item_length {value : V} (h : Ahead D array maxSize ends false text (value :: rows)) :
    2 ≤ text.length := by
  cases h with
  | item hws hdoc =>
    obtain ⟨cs, hcs, hlength⟩ := document_cons hdoc
    rw [List.length_append, List.length_append, hcs, List.length_cons]
    omega

theorem item_maxSize {value : V} (h : Ahead D array maxSize ends false text (value :: rows)) :
    4 < maxSize := by
  cases h with
  | item hws hdoc hshort =>
    obtain ⟨cs, hcs, hlength⟩ := document_cons hdoc
    rw [hcs, List.length_cons] at hshort
    omega

theorem guide_reads (hends : ∀ {text rest}, rest <:+ text → ends text → ends rest) :
    Guide D array true (Reads D array maxSize ends) where
  row := by
    rintro comma text rest rows n value ⟨c, hc, h⟩ hn hline
    cases h with
    | close hclosed =>
      obtain ⟨hrow, -⟩ := line_closed hclosed hn hline
      cases hrow
    | item hws hdoc hshort hrest =>
      rcases item_step (.item hws hdoc hshort hrest) hn hline with ⟨hrow, h⟩ | ⟨hrow, -⟩
      · cases hrow
        exact ⟨_, rfl, h.reads id⟩
      · cases hrow
    | comma hws hitem =>
      rw [hc rfl] at hline
      rcases line_comma_cases hws hn hline with ⟨hrow, -⟩ | ⟨hrow, -⟩ | ⟨k, -, -, hk, hline, -, hdrop⟩
      · cases hrow
      · cases hrow
      · rcases item_step hitem hk hline with ⟨hrow, h⟩ | ⟨hrow, -⟩
        · cases hrow
          rw [hdrop]
          exact ⟨_, rfl, h.reads id⟩
        · cases hrow
  more := by
    rintro comma text rest rows n ⟨c, hc, h⟩ hn hline
    cases h with
    | close hclosed hend =>
      obtain ⟨-, hclosed', -⟩ := line_closed hclosed hn hline
      exact (Ahead.close hclosed' (hends (List.drop_suffix _ _) hend)).reads hc
    | item hws hdoc hshort hrest =>
      rcases item_step (.item hws hdoc hshort hrest) hn hline with ⟨hrow, -⟩ | ⟨-, -, h, -⟩
      · cases hrow
      · exact h.reads hc
    | comma hws hitem =>
      rw [hc rfl] at hline ⊢
      rcases line_comma_cases hws hn hline with ⟨-, -, hdrop, -⟩ | ⟨-, -, hdrop, -⟩ |
        ⟨k, -, -, hk, hline, -, hdrop⟩
      · rw [hdrop]
        exact (Ahead.comma (hws.drop n) hitem).reads fun _ => rfl
      · rw [hdrop]
        exact hitem.reads fun _ => rfl
      · rw [hdrop]
        rcases item_step hitem hk hline with ⟨hrow, -⟩ | ⟨-, -, h, -⟩
        · cases hrow
        · exact h.reads fun _ => rfl
  ended := by
    rintro comma text rest rows ⟨c, hc, h⟩ hline
    have hsuffix := line_suffix D comma text
    rw [hline] at hsuffix
    have hkept : text.drop (text.length - rest.length) = rest :=
      (List.suffix_iff_eq_drop.mp hsuffix).symm
    have hall : text = text.take text.length := List.take_length.symm
    cases h with
    | close hclosed =>
      rw [hall] at hline
      obtain ⟨-, hclosed', -⟩ := line_closed hclosed (Nat.le_refl _) hline
      rw [hkept] at hclosed'
      exact ⟨rfl, hclosed'⟩
    | item hws hdoc hshort hrest =>
      rw [hall] at hline
      rcases item_step (.item hws hdoc hshort hrest) (Nat.le_refl _) hline with
        ⟨hrow, -⟩ | ⟨-, hless, -⟩
      · cases hrow
      · exact absurd hless (Nat.lt_irrefl _)
    | comma hws hitem =>
      rw [hc rfl, hall] at hline
      have htwo := item_length hitem
      rcases line_comma_cases hws (Nat.le_refl _) hline with ⟨-, hless, -⟩ | ⟨-, hless, -⟩ |
        ⟨k, hlength, -, hk, hline, -⟩
      · rw [List.length_append, List.length_cons] at hless
        omega
      · rw [List.length_append, List.length_cons] at hless
        omega
      · rcases item_step hitem hk hline with ⟨hrow, -⟩ | ⟨-, hless, -⟩
        · cases hrow
        · rw [List.length_append, List.length_cons] at hlength
          omega

/-- What the reader does not pass over is part of a document, or of what closes the file. -/
theorem short_reads : Short D maxSize (Reads D array maxSize (Ending maxSize)) := by
  rintro comma text rows n rest ⟨c, hc, h⟩ hn hline hsame
  cases h with
  | close hclosed hshort =>
    obtain ⟨-, -, -, hless⟩ := line_closed hclosed hn.le hline
    obtain ⟨hless, hhead⟩ := hless hsame hn
    unfold Ending at hshort
    refine ⟨?_, fun h => absurd h hhead⟩
    rcases Nat.eq_zero_or_pos n with hzero | hpos
    · omega
    · have := hless hpos
      omega
  | item hws hdoc hshort hrest =>
    rcases item_step (.item hws hdoc hshort hrest) hn.le hline with ⟨hrow, -⟩ | ⟨-, -, -, h⟩
    · cases hrow
    · have := h hsame
      exact ⟨by omega, fun _ => this⟩
  | @comma ws behind _ _ hws hitem =>
    rw [hc rfl] at hline
    rcases line_comma_cases hws hn.le hline with ⟨-, -, -, h⟩ | ⟨-, -, -, h⟩ | ⟨k, -, -, -, -, h, -⟩
    · have hmax := item_maxSize hitem
      have hhead : (ws ++ ',' :: behind).head? ≠ some '{' := by
        cases ws with
        | nil => simp
        | cons c ws => exact (hws.take 1).head (by decide)
      refine ⟨?_, fun h => absurd h hhead⟩
      rcases Nat.eq_zero_or_pos n with hzero | hpos
      · omega
      · have := (h hsame hpos).1
        omega
    · exact absurd hsame h
    · exact absurd hsame h

/-- What closes the file is not too long for a maximum of two or more. -/
theorem fits_reads (hmax : 2 ≤ maxSize) : Fits D maxSize (Reads D array maxSize (Ending maxSize)) := by
  rintro comma text rows ⟨c, hc, h⟩ hline
  obtain ⟨rfl, -⟩ := (guide_reads Ending.suffix).ended ⟨c, hc, h⟩ hline
  cases h with
  | close hclosed hends =>
    have hle := (line_suffix_skip D comma text).length_le
    rw [hline] at hle
    unfold Ending at hends
    change text.length ≤ _ at hle
    omega

end Reads

/-! ### Whole files -/

section Files
variable {V : Type} {D : JSONDecoder V} {array : Bool} {maxSize size b : ℕ}
  {text : List Char} {rows : List V} {ends ends' : List Char → Prop}

theorem Ahead.mono {maxSize' : ℕ} (hle : maxSize ≤ maxSize') (hends : ∀ text, ends text → ends' text)
    {comma : Bool} (h : Ahead D array maxSize ends comma text rows) :
    Ahead D array maxSize' ends' comma text rows := by
  induction h with
  | close hclosed hshort => exact .close hclosed (hends _ hshort)
  | item hws hdoc hshort _ ih => exact .item hws hdoc (by omega) ih
  | comma hws _ ih => exact .comma hws ih

/-- An array of objects, or one object or more. -/
def Importable (D : JSONDecoder V) (maxSize : ℕ) (ends : List Char → Prop) (array : Bool)
    (text : List Char) (rows : List V) : Prop :=
  if array then ∃ rest, text = '[' :: rest ∧ Ahead D true maxSize ends false rest rows
  else text.head? = some '{' ∧ Ahead D false maxSize ends false text rows

theorem Importable.mono {maxSize' : ℕ} (hle : maxSize ≤ maxSize')
    (hends : ∀ text, ends text → ends' text) (h : Importable D maxSize ends array text rows) :
    Importable D maxSize' ends' array text rows := by
  cases array with
  | true =>
    obtain ⟨rest, hrest, hahead⟩ := h
    exact ⟨rest, hrest, hahead.mono hle hends⟩
  | false => exact ⟨h.1, h.2.mono hle hends⟩

theorem Importable.mark (h : Importable D maxSize ends array text rows) :
    text.head? = some (mark array) := by
  cases array with
  | true =>
    obtain ⟨rest, hrest, -⟩ := h
    rw [hrest]
    rfl
  | false => exact h.1

theorem Importable.opening (h : Importable D maxSize ends array text rows) (size : ℕ) :
    Reads D array maxSize ends (array && (opening array size text).found)
      (opening array size text).text rows := by
  cases array with
  | true =>
    obtain ⟨rest, hrest, hahead⟩ := h
    rw [hrest]
    exact hahead.reads fun h => h
  | false => exact h.2.reads fun h => h

theorem full_opening (h : text.head? = some (mark array)) : (opening array size text).Full := by
  intro hstart
  cases array with
  | true => cases hstart
  | false =>
    change min size text.length = text.length ∨ size < min size text.length ∨
      size ≤ min size text.length ∧ text.head? = some '{'
    have hhead : text.head? = some '{' := h
    rcases Nat.le_total text.length size with hle | hle
    · exact .inl (Nat.min_eq_right hle)
    · exact .inr (.inr ⟨by omega, hhead⟩)

/-- A run from the opening of the file is what its import comes to. -/
theorem comes_of_opening {e : Raised} {left : List Char} (hpos : 0 < size) (hb : 0 < b)
    (hmark : text.head? = some (mark array))
    (hruns : Runs D array maxSize (opening array size text) rows e left) :
    ∃ o pieces, Comes D maxSize size b text o pieces ∧ (e = .stopIteration → Concluded o) ∧
      (e = .stopIteration → Cut b rows pieces ∧ (o = .ok () ↔ closed array left = true)) ∧
      (e ≠ .stopIteration → o = .error e) := by
  obtain ⟨f, hready, hwindow, hsetup⟩ := setupFile_eq maxSize hpos hmark
  have hsetup' (fuel : ℕ) (hfuel : 1 ≤ fuel) :
      setupFile maxSize fuel (.init text size) = (.ok (), f) := by
    rw [← Nat.sub_add_cancel hfuel]
    exact hsetup _
  exact comes_of_runs hb hready hwindow hsetup' hruns

/-- If the buffer is filled until the file ends the documents are imported. -/
theorem comes_of_stops (hpos : 0 < size) (hb : 0 < b)
    (h : Importable D maxSize (Ending maxSize) array text rows)
    (hstops : ∀ {rows' e left}, (opening array size text).Sound →
      Runs D array maxSize (opening array size text) rows' e left → e = .stopIteration) :
    ∃ pieces, Comes D maxSize size b text (.ok ()) pieces ∧ Cut b rows pieces := by
  have htext : text ≠ [] := by
    intro hnil
    have := h.mark
    rw [hnil] at this
    cases this
  have hsound := sound_opening array hpos htext
  have htotal : ∃ rows e left, Runs D array maxSize (opening array size text) rows e left :=
    runs_total _ hsound
  obtain ⟨rows', e, left, hruns⟩ := htotal
  have hstop := hstops hsound hruns
  obtain ⟨hrows, hclosed⟩ :=
    hruns.follow (guide_reads Ending.suffix) hsound (h.opening size) hstop
  obtain ⟨o, pieces, hcomes, -, hok, -⟩ := comes_of_opening hpos hb h.mark hruns
  obtain ⟨hcut, hclosed'⟩ := hok hstop
  rw [hclosed'.mpr hclosed] at hcomes
  exact ⟨pieces, hcomes, hrows ▸ hcut⟩

theorem opening_size (array : Bool) (size : ℕ) (text : List Char) :
    (opening array size text).size = size := by
  cases array <;> rfl

/-- With room for the buffer to be doubled the documents are imported. -/
theorem comes_of_lt (hpos : 0 < size) (hlt : size < maxSize) (hb : 0 < b)
    (h : Importable D maxSize (Ending maxSize) array text rows) :
    ∃ pieces, Comes D maxSize size b text (.ok ()) pieces ∧ Cut b rows pieces :=
  comes_of_stops hpos hb h fun hsound hruns =>
    hruns.stops (guide_reads Ending.suffix) short_reads hsound (full_opening h.mark)
      (by rw [opening_size]; exact hlt) (h.opening size)

/-- With a buffer that is larger than the maximum they are, too. -/
theorem comes_of_gt (hgt : maxSize < size) (hmax : 2 ≤ maxSize) (hb : 0 < b)
    (h : Importable D maxSize (Ending maxSize) array text rows) :
    ∃ pieces, Comes D maxSize size b text (.ok ()) pieces ∧ Cut b rows pieces :=
  comes_of_stops (by omega) hb h fun hsound hruns =>
    hruns.stops_above (guide_reads Ending.suffix) short_reads (fits_reads hmax) hsound
      (full_opening h.mark) (by rw [opening_size]; exact hgt) (h.opening size)

theorem Comes.unique {o o' : Outcome Raised Unit} {pieces pieces' : List (List V)}
    (h : Comes D maxSize size b text o pieces) (h' : Comes D maxSize size b text o' pieces') :
    o = o' ∧ pieces = pieces' := by
  obtain ⟨n, hn⟩ := h
  obtain ⟨n', hn'⟩ := h'
  obtain ⟨f, batch, more, heq⟩ := hn (max n n') (Nat.le_max_left _ _)
  obtain ⟨f', batch', more', heq'⟩ := hn' (max n n') (Nat.le_max_right _ _)
  rw [heq] at heq'
  cases heq'
  exact ⟨rfl, rfl⟩

end Files
end RethinkDB.Import.Source
