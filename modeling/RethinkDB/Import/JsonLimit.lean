import RethinkDB.Import.JsonLeading

/-! `--max-document-size`: the maximum of a buffer that starts with one chunk whatever the maximum
is. No import ends in the exception meant for documents over it. -/
namespace RethinkDB.Import.Source
open RethinkDB.Lib Prog

/-! ### Messages -/

def Raised.message : Raised → String
  | .needMoreData => ""
  | .stopIteration => ""
  | .assertionError message => message
  | .attributeError name => "'JsonSourceFile' object has no attribute '" ++ name ++ "'"
  | .indexError => "string index out of range"
  | .typeError => "expected string or bytes-like object"
  | .valueError message => message

/-- The start of the message for a document over the maximum. -/
def exceeded : List Char := "Error: JSON max buffer size exceeded".toList

def Documented (e : Raised) : Prop := exceeded <+: e.message.toList

instance (e : Raised) : Decidable (Documented e) := inferInstanceAs (Decidable (_ <+: _))

theorem Documented.take {e : Raised} (h : Documented e) : e.message.toList.take 13 = exceeded.take 13 := by
  obtain ⟨rest, hrest⟩ := h
  rw [← hrest]
  exact List.take_append_of_le_length (by decide)

/-- A message that starts in another way. -/
theorem not_documented {e : Raised} {start rest : String} (hmessage : e.message = start ++ rest)
    (hlength : 13 ≤ start.toList.length) (hne : start.toList.take 13 ≠ exceeded.take 13) :
    ¬Documented e := by
  intro h
  apply hne
  have htake := h.take
  rwa [hmessage, String.toList_append, List.take_append_of_le_length hlength] at htake

section Raises
variable {V : Type} (D : JSONDecoder V) (maxSize : ℕ)

theorem undocumented_attributeError (name : String) : ¬Documented (.attributeError name) := by
  have hmessage : (Raised.attributeError name).message =
      "'JsonSourceFile' object has no attribute '" ++ (name ++ "'") := String.append_assoc
  exact not_documented hmessage (by decide) (by decide)

theorem throws_fillBuffer : Throws (fun e => ¬Documented e) (fillBuffer maxSize) := by
  have hwiden : Throws (fun e => ¬Documented e) (widen maxSize) := by
    intro f e
    unfold widen
    split
    · rintro ⟨⟩
    · split_ifs
      · rintro ⟨⟩
        exact undocumented_attributeError _
      · rintro ⟨⟩
      · rintro ⟨⟩
  unfold fillBuffer
  refine hwiden.bind fun _ => (throws_read _).bind fun readTarget => ?_
  refine (throws_raiseIf (by decide)).bind fun _ => (throws_read _).bind fun newChunk => ?_
  refine (throws_modify _).bind fun _ => (throws_raiseIf (by decide)).bind fun _ => ?_
  exact throws_modify _

theorem throws_skipWhitespace : Throws (fun e => ¬Documented e) skipWhitespace := by
  intro f e
  unfold skipWhitespace
  split
  · rintro ⟨⟩
    decide
  · rintro ⟨⟩

theorem throws_checkEnd : Throws (fun e => ¬Documented e) checkEnd := by
  intro f e
  unfold checkEnd
  split_ifs
  · rintro ⟨⟩
    decide
  · rintro ⟨⟩

theorem throws_getLine : Throws (fun e => ¬Documented e) (getLine D) := by
  have hcomma : Throws (fun e => ¬Documented e) skipComma := by
    intro f
    unfold wp skipComma
    split_ifs
    · exact throws_checkEnd _
    · rintro e ⟨⟩
  have hparse : Throws (fun e => ¬Documented e) (parse D) := by
    intro f e
    unfold parse
    split
    · rintro ⟨⟩
    · rintro ⟨⟩
      decide
  unfold getLine
  refine throws_skipWhitespace.bind fun _ => throws_checkEnd.bind fun _ => hcomma.bind fun _ => ?_
  exact throws_skipWhitespace.bind fun _ => throws_checkEnd.bind fun _ => hparse

theorem throws_setupFile (fuel : ℕ) :
    Throws (fun e => ¬Documented e) (setupFile maxSize fuel) := by
  have hturn : Throws (fun e => ¬Documented e) (setupTurn maxSize) := by
    unfold setupTurn
    refine (throws_fillBuffer maxSize).bind fun _ => (throws_modify _).bind fun _ => ?_
    exact throws_skipWhitespace.bind fun _ => throws_read _
  have hfirst : Throws (fun e => ¬Documented e) checkFirst := by
    intro f e
    unfold checkFirst
    split
    · rintro ⟨⟩
    · rintro ⟨⟩
    · rintro ⟨⟩
      decide
    · rintro ⟨⟩
      decide
  exact (hturn.turns fuel).bind fun _ => hfirst

theorem throws_teardown : Throws (fun e => ¬Documented e) teardown := by
  have hbracket : Throws (fun e => ¬Documented e) checkBracket := by
    intro f e
    unfold checkBracket
    split_ifs
    · split
      · rintro ⟨⟩
        decide
      · split_ifs
        · rintro ⟨⟩
        · rintro ⟨⟩
          exact not_documented rfl (by decide) (by decide)
    · rintro ⟨⟩
  have hrest : Throws (fun e => ¬Documented e) checkRest := by
    intro f e
    unfold checkRest
    split_ifs
    · rintro ⟨⟩
      exact not_documented rfl (by decide) (by decide)
    · rintro ⟨⟩
  unfold teardown
  refine throws_skipWhitespace.bind fun _ => hbracket.bind fun _ => ?_
  exact throws_skipWhitespace.bind fun _ => hrest

theorem throws_turn (b : ℤ) : Throws (fun e => ¬Documented e) (turn D maxSize b) := by
  have hread : Throws (fun e => ¬Documented e) (readRow D) := by
    unfold readRow
    refine ((throws_getLine D).zoom.bind fun row => throws_modify _).handle fun e he => ?_
    cases e with
    | needMoreData => exact throws_modify _
    | _ => exact throws_throw he
  have hrest : Throws (fun e => ¬Documented e) (readOrYield D b) :=
    (throws_read _).bind fun _ => Throws.ite (hread.bind fun _ => throws_pure true)
      ((throws_modify _).bind fun _ => throws_pure true)
  unfold turn
  refine (throws_read _).bind fun more => Throws.ite ?_ hrest
  exact (throws_fillBuffer maxSize).zoom.bind fun _ => (throws_modify _).bind fun _ => hrest

/-- No import ends in it. -/
theorem throws_batches (b : Option ℤ) (fuel : ℕ) :
    Throws (fun e => ¬Documented e) (batches D maxSize b fuel) := by
  have hfinish : Throws (fun e => ¬Documented e) (finish : Prog (Job V) Raised Unit) :=
    (throws_modify _).bind fun _ => throws_teardown.zoom
  unfold batches
  refine (throws_raiseIf (by decide)).bind fun _ => ?_
  refine (throws_setupFile maxSize fuel).zoom.bind fun _ => ?_
  refine ((throws_turn D maxSize _).turns fuel).handle fun e he => ?_
  cases e with
  | stopIteration => exact hfinish
  | _ => exact throws_throw he

end Raises

/-! ### Documents over the maximum -/

section Long
variable {V : Type} {D : JSONDecoder V} {array : Bool} {maxSize b : ℕ} {w : Window}
  {doc text left : List Char} {value : V} {rows : List V} {e : Raised}

/-- Nothing of a part of a document is passed over. -/
theorem line_doc (hdoc : D.Document doc value) (htext : w.text = doc) (hpos : 0 < w.seen)
    (hless : w.seen < doc.length) : w.line D array = (doc.take w.seen, none) ∧
      w.afterLine (doc.take w.seen, (none : Option V)) = w := by
  constructor
  · rw [Window.line, Window.visible, htext]
    exact line_part white_nil hdoc hpos hless
  · have hlength : w.seen - (doc.take w.seen).length = 0 := by
      rw [List.length_take]
      omega
    change Window.mk (w.text.drop (w.seen - (doc.take w.seen).length))
      (w.seen - (w.seen - (doc.take w.seen).length))
      (w.atStart && decide (w.seen - (doc.take w.seen).length = 0)) w.size (w.found || false) = w
    rw [hlength, decide_eq_true rfl, Bool.and_true, Bool.or_false]
    rfl

/-- The buffer is doubled up to the maximum. -/
theorem Runs.long (hruns : Runs D array maxSize w rows e left) (hdoc : D.Document doc value)
    (hmax : maxSize + 1 < doc.length) (htext : w.text = doc) (hstart : w.atStart = true)
    (hw : w.Sound) (hsize : w.size ≤ maxSize) : e = .attributeError "bytes_processed" := by
  have hseen := hw.start hstart
  have hline : w.line D array = (doc.take w.seen, none) ∧ _ :=
    line_doc hdoc htext hseen.1 (by omega)
  obtain ⟨hline, hstays⟩ := hline
  induction hruns with
  | row hrow =>
    rw [hline] at hrow
    cases hrow
  | @refill w w' rest rows e left hnothing hfill _ ih =>
    rw [hline] at hnothing
    cases hnothing
    have hsound := (hw.afterLine (doc.take w.seen, (none : Option V))).fill hfill
    rw [hstays] at hfill
    obtain ⟨-, -, -, hw'⟩ := Window.fill_ok_iff.mp hfill
    have hsize' : w'.size ≤ maxSize := by
      rw [hw']
      change w.widened maxSize ≤ maxSize
      unfold Window.widened
      rw [if_pos hstart]
      exact Nat.min_le_right _ _
    have hstart' : w'.atStart = true := by rw [hw']
    have hseen' := hsound.start hstart'
    have htext' : w'.text = doc := by
      rw [hw']
      exact htext
    obtain ⟨hline', hstays'⟩ : w'.line D array = (doc.take w'.seen, none) ∧ _ :=
      line_doc hdoc htext' hseen'.1 (by omega)
    exact ih htext' hstart' hsound hsize' hseen' hline' hstays'
  | @unfilled w rest e hnothing hfill =>
    rw [hline] at hnothing
    cases hnothing
    have hpos := hw.size_pos
    rw [hstays] at hfill
    unfold Window.fill Window.widened at hfill
    rw [if_pos hstart] at hfill
    split_ifs at hfill with hat
    · cases hfill
      rfl
    · unfold Window.refill at hfill
      have hne : w.size ≠ maxSize := fun h => hat ⟨hstart, h⟩
      rw [if_neg (by omega), if_neg (by rw [htext]; omega)] at hfill
      cases hfill

/-- The text of one document that is longer than the maximum, and than the first chunk. -/
theorem comes_long (maxSize : ℕ) (hdoc : D.Document doc value)
    (hlong : max maxSize jsonReadChunkSize + 1 < doc.length) (hb : 0 < b) : ∃ pieces, Comes D maxSize jsonReadChunkSize b doc
      (.error (if maxSize < jsonReadChunkSize
        then .assertionError "Can not set the read target and full the buffer"
        else .attributeError "bytes_processed")) pieces := by
  have hpos : 0 < jsonReadChunkSize := by decide
  have hne : doc ≠ [] := List.ne_nil_of_length_pos (by omega)
  have hmark : doc.head? = some (mark false) := by
    obtain ⟨cs, hcs, -⟩ := document_cons hdoc
    rw [hcs]
    rfl
  let w := opening false jsonReadChunkSize doc
  have hw : w.Sound := sound_opening false hpos hne
  have hseen : w.seen = jsonReadChunkSize := Nat.min_eq_left (by omega)
  by_cases habove : maxSize < jsonReadChunkSize
  · rw [if_pos habove]
    obtain ⟨hline, hstays⟩ : w.line D false = (doc.take w.seen, none) ∧ _ :=
      line_doc hdoc rfl (by omega) (by omega)
    have hfill : w.fill maxSize =
        .error (.assertionError "Can not set the read target and full the buffer") :=
      fill_above habove (show maxSize < w.seen by omega)
    rw [← hstays] at hfill
    obtain ⟨o, pieces, hcomes, -, -, herror⟩ :=
      comes_of_opening hpos hb hmark (.unfilled hline hfill)
    rw [herror (by simp)] at hcomes
    exact ⟨pieces, hcomes⟩
  · rw [if_neg habove]
    have htotal : ∃ rows e left, Runs D false maxSize w rows e left := runs_total w hw
    obtain ⟨rows, e, left, hruns⟩ := htotal
    have he := hruns.long hdoc (by omega) rfl rfl hw (Nat.le_of_not_lt habove)
    subst he
    obtain ⟨o, pieces, hcomes, -, -, herror⟩ := comes_of_opening hpos hb hmark hruns
    rw [herror (by simp)] at hcomes
    exact ⟨pieces, hcomes⟩

end Long

/-- An object without fields, with whitespace in it. -/
def spaced (n : ℕ) : List Char := '{' :: (List.replicate n ' ' ++ ['}'])

theorem spaced_document (n : ℕ) : (emptyObjects ()).Document (spaced n) () :=
  ⟨rfl, _, white_replicate n, rfl⟩

theorem spaced_length (n : ℕ) : (spaced n).length = n + 2 := by
  rw [spaced, List.length_cons, List.length_append, List.length_replicate, List.length_singleton]

/-! ### What a maximum is for -/

section Limit
variable {V : Type} {D : JSONDecoder V} {array : Bool} {limit b : ℕ} {doc text : List Char}
  {value : V} {rows : List V} {o : Outcome Raised Unit} {pieces : List (List V)}

/-- A file with documents, and an end, of any length. -/
def WellFormed (D : JSONDecoder V) (array : Bool) (text : List Char) (rows : List V) : Prop :=
  ∃ n, Importable D n (fun _ => True) array (Json.skip text) rows

/-- A file with documents, and an end, of no more than so many characters. -/
def Within (D : JSONDecoder V) (limit : ℕ) (array : Bool) (text : List Char) (rows : List V) :
    Prop :=
  Importable D (2 * limit + 1) (fun rest => rest.length ≤ limit) array (Json.skip text) rows

/-- A file with a document of more characters than that. -/
def Exceeds (D : JSONDecoder V) (limit : ℕ) (array : Bool) (text : List Char) (rows : List V) :
    Prop :=
  WellFormed D array text rows ∧
    ¬Importable D (2 * limit + 1) (fun _ => True) array (Json.skip text) rows

/-- What a limit is to do for a file: the assertion holds, a file within it is not refused for it,
and one with a document over it is refused with the exception that says so. What the code raises in
place of that is an attribute error. -/
structure Meets (D : JSONDecoder V) (limit b : ℕ) (array : Bool) (text : List Char)
    (rows : List V) : Prop where
  asserts {o : Outcome Raised Unit} {pieces : List (List V)} (message : String) :
    Comes D limit jsonReadChunkSize b text o pieces → o ≠ .error (.assertionError message)
  admits {e : Raised} {pieces : List (List V)} : Within D limit array text rows →
    Comes D limit jsonReadChunkSize b text (.error e) pieces →
    ¬Documented e ∧ e ≠ .attributeError "bytes_processed"
  reports {o : Outcome Raised Unit} {pieces : List (List V)} : Exceeds D limit array text rows →
    Comes D limit jsonReadChunkSize b text o pieces → ∃ e, o = .error e ∧ Documented e

theorem chunk_pos : 0 < jsonReadChunkSize := by decide

/-- Every import of an array or of objects comes to an end. -/
theorem comes_of_mark (limit : ℕ) (hb : 0 < b) (hmark : (Json.skip text).head? = some (mark array)) :
    ∃ o pieces, Comes D limit jsonReadChunkSize b text o pieces := by
  by_cases hstarts : Starts jsonReadChunkSize text
  · have htotal : ∃ rows e left,
        Runs D array limit (beginning array jsonReadChunkSize text) rows e left :=
      runs_total _ (sound_beginning chunk_pos hmark)
    obtain ⟨rows', e, left, hruns⟩ := htotal
    obtain ⟨o, pieces, hcomes, -⟩ := comes_of_beginning chunk_pos hb hmark hstarts hruns
    exact ⟨o, pieces, hcomes⟩
  · exact ⟨_, _, comes_unfilled chunk_pos hb hstarts⟩

theorem Exceeds.not_meets (h : Exceeds D limit array text rows) (hb : 0 < b) :
    ¬Meets D limit b array text rows := by
  intro hmeets
  obtain ⟨n, himportable⟩ := h.1
  obtain ⟨o, pieces, hcomes⟩ := comes_of_mark (D := D) limit hb himportable.mark
  obtain ⟨e, rfl, hdocumented⟩ := hmeets.reports h hcomes
  obtain ⟨n, hn⟩ := hcomes
  obtain ⟨f, batch, more, heq⟩ := hn n (Nat.le_refl n)
  have hthrows := throws_batches D limit (some b) n (.init text jsonReadChunkSize)
  exact hthrows e (congrArg Prod.fst heq) hdocumented

/-- The text of a document is a file. -/
theorem importable_document {n : ℕ} (hdoc : D.Document doc value) (hshort : 2 * doc.length < n) :
    Importable D n (fun _ => True) false (Json.skip doc) [value] := by
  obtain ⟨cs, hcs, -⟩ := document_cons hdoc
  have hskip : Json.skip doc = doc := by
    rw [hcs]
    exact Json.skip_cons (by decide) _
  rw [hskip]
  refine ⟨by rw [hcs]; rfl, ?_⟩
  have hclose : Ahead D false n (fun _ => True) false [] [] := .close rfl trivial
  have hitem := Ahead.item white_nil hdoc hshort hclose
  rwa [List.nil_append, List.append_nil] at hitem

theorem wellFormed_document (hdoc : D.Document doc value) : WellFormed D false doc [value] :=
  ⟨2 * doc.length + 1, importable_document hdoc (Nat.lt_succ_self _)⟩

/-- A document that starts where another one does is that one. -/
theorem document_unique {doc' rest : List Char} {value' : V} (hdoc : D.Document doc value)
    (hdoc' : D.Document doc' value') (heq : doc = doc' ++ rest) : doc'.length = doc.length := by
  have hall := D.decodes [] hdoc
  have hpart := D.decodes rest hdoc'
  rw [List.append_nil, heq, hpart] at hall
  have hlength := (Prod.mk.inj (Option.some.inj hall)).2
  rw [heq]
  exact hlength

theorem exceeds_document (hdoc : D.Document doc value) (hlong : limit < doc.length) :
    Exceeds D limit false doc [value] := by
  refine ⟨wellFormed_document hdoc, ?_⟩
  obtain ⟨cs, hcs, -⟩ := document_cons hdoc
  have hskip : Json.skip doc = doc := by
    rw [hcs]
    exact Json.skip_cons (by decide) _
  rw [hskip]
  rintro ⟨hhead, hahead⟩
  generalize htext : doc = text at hahead hhead
  cases hahead with
  | @item ws doc' rest _ _ hws hdoc' hshort hrest =>
    have hnil : ws = [] := by
      cases ws with
      | nil => rfl
      | cons c cs =>
        have hc : c = '{' := Option.some.inj hhead
        have hspace := hws c List.mem_cons_self
        rw [hc] at hspace
        cases hspace
    subst hnil
    have hsame := document_unique hdoc hdoc' htext
    omega

/-- The assertion fails exactly where nothing is passed over in a buffer larger than the limit. -/
theorem asserts_iff (hb : 0 < b) (hcomes : Comes D limit jsonReadChunkSize b text o pieces) :
    (∃ message, o = .error (.assertionError message)) ↔ Starts jsonReadChunkSize text ∧
      ∃ array w, (Json.skip text).head? = some (mark array) ∧
        Reaches D array limit (beginning array jsonReadChunkSize text) w ∧
        w.Jams D array limit ∧ limit < w.size := by
  constructor
  · rintro ⟨message, rfl⟩
    have hstarts : Starts jsonReadChunkSize text := by
      by_contra hstarts
      cases (hcomes.unique (comes_unfilled chunk_pos hb hstarts)).1
    refine ⟨hstarts, ?_⟩
    by_cases hother : ∀ array, (Json.skip text).head? ≠ some (mark array)
    · obtain ⟨message', hfails⟩ := comes_other D limit chunk_pos hb hstarts hother
      cases (hcomes.unique hfails).1
    · obtain ⟨array, hmark⟩ := not_forall.mp hother
      rw [not_not] at hmark
      have hsound : (beginning array jsonReadChunkSize text).Sound := sound_beginning chunk_pos hmark
      have htotal : ∃ rows e left,
          Runs D array limit (beginning array jsonReadChunkSize text) rows e left :=
        runs_total _ hsound
      obtain ⟨rows', e, left, hruns⟩ := htotal
      obtain ⟨o, pieces', hcomes', hconcluded, -, herror⟩ :=
        comes_of_beginning chunk_pos hb hmark hstarts hruns
      obtain ⟨rfl, rfl⟩ := hcomes.unique hcomes'
      rcases hruns.jams hsound with ⟨rfl, -⟩ | ⟨w, hreaches, hjams, rfl⟩
      · exact absurd (.inr ⟨message, rfl⟩) (hconcluded rfl).2
      · refine ⟨array, w, hmark, hreaches, hjams, ?_⟩
        rcases hjams.2.2 with hsize | ⟨hsize, -⟩
        · have herror' := herror w.jam_ne
          rw [Window.jam, if_pos hsize] at herror'
          cases herror'
        · exact hsize
  · rintro ⟨hstarts, array, w, hmark, hreaches, hjams, hsize⟩
    have hw := hreaches.sound (sound_beginning chunk_pos hmark)
    obtain ⟨rows', hruns⟩ := hreaches.runs (hjams.runs hw)
    obtain ⟨o', pieces', hfails, -, -, herror⟩ :=
      comes_of_beginning chunk_pos hb hmark hstarts hruns
    rw [herror w.jam_ne, Window.jam, if_neg (Nat.ne_of_gt hsize)] at hfails
    exact ⟨_, (hcomes.unique hfails).1⟩

/-! ### Documents within the maximum -/

theorem Importable.beginning {n : ℕ} {ends : List Char → Prop} (size : ℕ)
    (h : Importable D n ends array (Json.skip text) rows) :
    Reads D array n ends (array && (Source.beginning array size text).found)
      (Source.beginning array size text).text rows := by
  obtain ⟨htext, hflag⟩ := beginning_text array size text
  obtain ⟨htext', hflag'⟩ := opening_text array size (Json.skip text)
  have hreads := h.opening size
  rw [htext', hflag'] at hreads
  rw [htext, hflag]
  exact hreads

theorem full_beginning {size : ℕ} (hmark : (Json.skip text).head? = some (mark array)) :
    (beginning array size text).Full := by
  intro hstart
  cases array with
  | true => cases hstart
  | false =>
    by_cases hlead : lead text = []
    · have hopening : beginning false size text = opening false size (Json.skip text) := by
        unfold beginning start
        rw [if_pos hlead]
        rfl
      rw [hopening] at hstart ⊢
      exact full_opening hmark hstart
    · have hseen : (beginning false size text).seen = min (size + 1) (Json.skip text).length := by
        unfold beginning start
        rw [if_neg hlead]
        rfl
      rw [hseen]
      change _ = (Json.skip text).length ∨ size < _ ∨ _
      omega

theorem Importable.led_beginning {n size : ℕ} {ends : List Char → Prop} (hpos : 0 < size)
    (h : Importable D n ends array (Json.skip text) rows) :
    (Source.beginning array size text).Led array (Reads D array n ends) :=
  ⟨sound_beginning hpos h.mark, full_beginning h.mark, rows, h.beginning size⟩

/-- Where a buffer that may not grow begins with the closing bracket an import ends. -/
theorem WellFormed.comes_shut (h : WellFormed D array text rows) (hb : 0 < b)
    (hstarts : Starts jsonReadChunkSize text) {w : Window}
    (hreaches : Reaches D array limit (beginning array jsonReadChunkSize text) w)
    (hshut : w.Shut limit) :
    ∃ pieces, Comes D limit jsonReadChunkSize b text (.error (w.jam limit)) pieces := by
  obtain ⟨n, himportable⟩ := h
  obtain ⟨rows', left, hruns⟩ :=
    (himportable.led_beginning chunk_pos).runs_shut (fun _ => id) hreaches hshut
  obtain ⟨o, pieces, hcomes, -, -, herror⟩ :=
    comes_of_beginning chunk_pos hb himportable.mark hstarts hruns
  rw [herror w.jam_ne] at hcomes
  exact ⟨pieces, hcomes⟩

/-- An import that is over for another reason than its limit. -/
theorem meets_of_concluded (hdocs : ¬Exceeds D limit array text rows)
    (hcomes : Comes D limit jsonReadChunkSize b text o pieces)
    (ho : o = .ok () ∨ o = .error .stopIteration) : Meets D limit b array text rows := by
  constructor
  · intro o' pieces' message hcomes' ho'
    rw [(hcomes'.unique hcomes).1] at ho'
    rcases ho with rfl | rfl <;> cases ho'
  · intro e pieces' hwithin hcomes'
    obtain ⟨rfl, -⟩ := hcomes'.unique hcomes
    rcases ho with ho | ho
    · cases ho
    · cases ho
      exact ⟨by decide, by simp⟩
  · intro o' pieces' hexceeds
    exact absurd hexceeds hdocs

/-- A limit does what it is for exactly for the files without a document over it in which no buffer
of that size begins with the closing bracket, unless the end is over the limit, and no larger buffer
does, unless what is left is not. -/
theorem meets_iff (hb : 0 < b) :
    (∀ text o pieces, Comes D limit jsonReadChunkSize b text o pieces →
      ((∃ message, o = .error (.assertionError message)) ↔ Starts jsonReadChunkSize text ∧
        ∃ array w, (Json.skip text).head? = some (mark array) ∧
          Reaches D array limit (beginning array jsonReadChunkSize text) w ∧
          w.Jams D array limit ∧ limit < w.size)) ∧
    ∀ array text rows, WellFormed D array text rows →
      (Meets D limit b array text rows ↔ ¬Exceeds D limit array text rows ∧
        (Starts jsonReadChunkSize text → ∀ w,
          Reaches D array limit (beginning array jsonReadChunkSize text) w → w.Closing →
            (w.size = limit → ¬Within D limit array text rows) ∧
            (limit < w.size → w.text.length ≤ limit))) := by
  refine ⟨fun _ _ _ => asserts_iff hb, fun array text rows h => ⟨fun hmeets => ?_, fun hholds => ?_⟩⟩
  · refine ⟨fun hexceeds => hexceeds.not_meets hb hmeets, fun hstarts w hreaches hclosing => ?_⟩
    constructor
    · intro hsize hwithin
      obtain ⟨pieces, hfails⟩ := h.comes_shut hb hstarts hreaches ⟨hclosing, .inl hsize⟩
      have hadmitted := (hmeets.admits hwithin hfails).2
      exact hadmitted (if_pos hsize)
    · intro hsize
      by_contra hlong
      obtain ⟨pieces, hfails⟩ := h.comes_shut hb hstarts hreaches
        ⟨hclosing, .inr ⟨hsize, by omega⟩⟩
      have hjam : w.jam limit = _ := if_neg (Nat.ne_of_gt hsize)
      rw [hjam] at hfails
      exact hmeets.asserts _ hfails rfl
  · obtain ⟨hdocs, hclosing⟩ := hholds
    by_cases hstarts : Starts jsonReadChunkSize text
    · have hshort : Importable D (2 * limit + 1) (fun _ => True) array (Json.skip text) rows := by
        by_contra hlong
        exact hdocs ⟨h, hlong⟩
      by_cases hopen : ∃ w, Reaches D array limit (beginning array jsonReadChunkSize text) w ∧
          w.Shut limit
      · obtain ⟨w, hreaches, hshut⟩ := hopen
        obtain ⟨pieces, hfails⟩ := h.comes_shut hb hstarts hreaches hshut
        obtain ⟨hlimit, hless⟩ := hclosing hstarts w hreaches hshut.1
        have hsize : w.size = limit := by
          rcases hshut.2 with hsize | ⟨hsize, hlong⟩
          · exact hsize
          · have := hless hsize
            omega
        have hjam : w.jam limit = .attributeError "bytes_processed" := if_pos hsize
        rw [hjam] at hfails
        constructor
        · intro o pieces' message hcomes ho
          rw [(hcomes.unique hfails).1] at ho
          cases ho
        · intro e pieces' hwithin _
          exact absurd hwithin (hlimit hsize)
        · intro o pieces' hexceeds
          exact absurd hexceeds hdocs
      · have hled := hshort.led_beginning chunk_pos
        have hreads := hshort.beginning jsonReadChunkSize
        obtain ⟨left, hruns, hclosed⟩ := hled.runs_open (fun _ => id) hreads
          fun w hreaches hshut => hopen ⟨w, hreaches, hshut⟩
        obtain ⟨o, pieces, hcomes, -, hok, -⟩ :=
          comes_of_beginning chunk_pos hb hshort.mark hstarts hruns
        exact meets_of_concluded hdocs hcomes (.inl ((hok rfl).2.mpr hclosed))
    · exact meets_of_concluded hdocs (comes_unfilled chunk_pos hb hstarts) (.inr rfl)

end Limit

/-- A file of objects has no closing bracket: `{}` with a limit of just the first chunk. -/
theorem spaced_met : Meets (emptyObjects ()) jsonReadChunkSize 1 false (spaced 0) [()] := by
  have hwell : WellFormed (emptyObjects ()) false (spaced 0) [()] :=
    wellFormed_document (spaced_document 0)
  apply ((meets_iff Nat.one_pos).2 _ _ _ hwell).mpr
  constructor
  · intro hexceeds
    exact hexceeds.2 (importable_document (spaced_document 0) (by decide))
  · intro _ w hreaches hclosing
    obtain ⟨n, himportable⟩ := hwell
    have hled := hreaches.led (guide_reads (fun _ => id)) (himportable.led_beginning chunk_pos)
    obtain ⟨rows, hreads⟩ := hled.ahead
    cases hreads.array_of_bracket hclosing.2

/-- An object over the limit: with a limit below the first chunk the assertion fails, with one above
it the exception is not the one meant. -/
theorem spaced_not_reported :
    (∃ pieces, Comes (emptyObjects ()) 1000 jsonReadChunkSize 1 (spaced 131072)
      (.error (.assertionError "Can not set the read target and full the buffer")) pieces) ∧
    (∃ pieces, Comes (emptyObjects ()) 1048576 jsonReadChunkSize 1 (spaced 1048576)
      (.error (.attributeError "bytes_processed")) pieces) ∧
    ¬Meets (emptyObjects ()) 1000 1 false (spaced 131072) [()] ∧
    ¬Meets (emptyObjects ()) 1048576 1 false (spaced 1048576) [()] := by
  have hbelow := comes_long 1000 (spaced_document 131072) (by
    rw [spaced_length]
    decide) Nat.one_pos
  have habove := comes_long 1048576 (spaced_document 1048576) (by
    rw [spaced_length]
    decide) Nat.one_pos
  refine ⟨hbelow, habove, ?_, ?_⟩
  · exact (exceeds_document (spaced_document _) (by rw [spaced_length]; omega)).not_meets Nat.one_pos
  · exact (exceeds_document (spaced_document _) (by rw [spaced_length]; omega)).not_meets Nat.one_pos
end RethinkDB.Import.Source
