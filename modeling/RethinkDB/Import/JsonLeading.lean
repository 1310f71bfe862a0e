import RethinkDB.Import.JsonBuffering

/-! Whitespace before a JSON file. The buffer is filled again after each part of it that is passed
over, and there has to be something left to fill it with. -/
namespace RethinkDB.Import.Source
open RethinkDB.Lib Prog
open RethinkDB.Import.ReadToQueue (Cut)

/-! ### The loop over leading whitespace -/

/-- Not with whitespace. -/
def Begins (cs : List Char) : Prop := ∀ c ∈ cs.head?, Json.isWhitespace c = false

theorem Begins.skip {cs : List Char} (h : Begins cs) : Json.skip cs = cs := by
  cases cs with
  | nil => rfl
  | cons c cs => exact Json.skip_cons (h c rfl) _

theorem begins_skip (text : List Char) : Begins (Json.skip text) := by
  intro c hc
  have hhead := List.head?_dropWhile_not Json.isWhitespace text
  have hfirst : (text.dropWhile Json.isWhitespace).head? = some c := hc
  rwa [hfirst] at hhead

/-- A buffer of `seen` characters, or of all there are. -/
def fresh (size seen : ℕ) (text : List Char) : Window :=
  ⟨text, min seen text.length, true, size, false⟩

/-- That there is more of the file than what the buffer has when it gets to the end of `k`
characters of whitespace, before `n` others; the buffer starts with `size` and has one more from
then on. -/
def Refills (size k n : ℕ) : Prop := size * (k + 1) % (size + 1) < n

instance (size k n : ℕ) : Decidable (Refills size k n) := inferInstanceAs (Decidable (_ < _))

section Leading
variable {maxSize size seen : ℕ} {ws text : List Char} {f g : JsonSourceFile}

/-- What is passed over of a buffer that starts with whitespace. -/
theorem skip_take (hws : White ws) (hbegins : Begins text) :
    Json.skip ((ws ++ text).take seen) = ((ws ++ text).take seen).drop (min seen ws.length) := by
  rcases Nat.le_total seen ws.length with hle | hle
  · rw [Nat.min_eq_left hle, List.take_append_of_le_length hle, skip_nil_iff.mpr (hws.take seen)]
    exact (List.drop_eq_nil_of_le (List.length_take_le _ _)).symm
  · obtain ⟨m, rfl⟩ : ∃ m, seen = ws.length + m := ⟨seen - ws.length, by omega⟩
    have hpart : Begins (text.take m) := by
      intro c hc
      rw [List.head?_take] at hc
      split_ifs at hc
      · cases hc
      · exact hbegins c hc
    rw [Nat.min_eq_right hle, List.take_length_add_append, skip_white hws, hpart.skip,
      List.drop_left]

theorem fresh_snippit (hwindow : window f = fresh size seen text) :
    f.bufferPos = 0 ∧ f.snippit = text.take seen := by
  constructor
  · have := congrArg Window.atStart hwindow
    simpa [window, fresh] using this
  · have hvisible := congrArg Window.visible hwindow
    rw [window_visible] at hvisible
    rw [hvisible]
    exact List.take_eq_take_min.symm

/-- A turn from a buffer that starts with whitespace. -/
theorem setupTurn_white (hready : Ready none f) (hfill : fillBuffer maxSize g = (.ok (), f))
    (hwindow : window f = fresh size seen (ws ++ text)) (hws : White ws) (hne : ws ≠ [])
    (hbegins : Begins text) (hpos : 0 < seen) (hseen : seen ≤ size + 1) : ∃ g',
    setupTurn maxSize g = (.ok true, g') ∧
      if (ws ++ text).length ≤ seen then ∃ f', fillBuffer maxSize g' = (.error .stopIteration, f')
      else ∃ f', fillBuffer maxSize g' = (.ok (), f') ∧ Ready none f' ∧
        window f' = fresh size (size + 1) (ws.drop seen ++ text) := by
  have hlength := List.length_pos_of_ne_nil hne
  obtain ⟨hstart, hsnippit⟩ := fresh_snippit hwindow
  let j := min seen ws.length
  have hall : f.snippit.length = min seen (ws ++ text).length := by rw [hsnippit, List.length_take]
  have hle : ws.length ≤ (ws ++ text).length := by
    rw [List.length_append]
    exact Nat.le_add_right _ _
  have hskip : Json.skip f.snippit = f.snippit.drop j := by
    rw [hsnippit]
    exact skip_take hws hbegins
  have hmoved : (Json.skip f.snippit).length ≠ f.snippit.length := by
    rw [hskip, List.length_drop]
    omega
  have hturn := setupTurn_filled hfill hready hstart
  rw [decide_eq_true hmoved] at hturn
  refine ⟨_, hturn, ?_⟩
  have hseek : f.seek (Json.skip f.snippit) = f.advance j := by
    rw [hskip]
    exact (JsonSourceFile.advance_eq_seek (by omega)).symm
  have hdrop : ws.drop j = ws.drop seen := by
    rcases Nat.le_total seen ws.length with hless | hmore
    · rw [show j = seen from Nat.min_eq_left hless]
    · rw [show j = ws.length from Nat.min_eq_right hmore, List.drop_eq_nil_of_le hmore,
        List.drop_length]
  have hinside : Inside (window (f.seek (Json.skip f.snippit))) (ws.drop seen ++ text)
      (min seen (ws ++ text).length - j) size := by
    rw [hseek, window_advance f (by omega), hwindow]
    constructor
    · change (ws ++ text).drop j = _
      rw [List.drop_append_of_le_length (Nat.min_le_right _ _), hdrop]
    · rfl
    · change (true && decide (j = 0)) = false
      rw [decide_eq_false (by omega)]
      rfl
    · rfl
  have hkept : (ws.drop seen ++ text).length = (ws ++ text).length - j := by
    rw [← hdrop, List.length_append, List.length_append, List.length_drop]
    omega
  have hfills : Fills none _ (fillBuffer maxSize (f.seek (Json.skip f.snippit))) _ :=
    fillBuffer_fills (hready.seek (Json.skip f.snippit))
  split_ifs with hend
  · rw [hinside.fill_end maxSize (by omega) (by omega)] at hfills
    exact ⟨_, Prod.ext hfills.1 rfl⟩
  · rw [hinside.fill maxSize (by omega) (by omega)] at hfills
    obtain ⟨hok, hready', hwindow'⟩ := hfills
    refine ⟨_, Prod.ext hok rfl, hready', ?_⟩
    have hfound : (window (f.seek (Json.skip f.snippit))).found = false := by
      change (window f).found = false
      rw [hwindow]
      rfl
    rw [hwindow', hfound]
    rfl

/-- What is left of a buffer of `size + 1` behind whitespace that ends in it. -/
theorem mul_mod_succ {k : ℕ} (hpos : 0 < k) (hle : k ≤ size + 1) :
    size * k % (size + 1) = size + 1 - k := by
  obtain ⟨m, rfl⟩ : ∃ m, k = m + 1 := ⟨k - 1, by omega⟩
  have hsplit : size * (m + 1) = size - m + (size + 1) * m := by
    rw [Nat.mul_succ, Nat.succ_mul]
    omega
  rw [hsplit, Nat.add_mul_mod_self_left, Nat.mod_eq_of_lt (by omega)]
  omega

/-- A buffer that whitespace fills makes no difference. -/
theorem mul_mod_add (size k m : ℕ) : size * (k + (size + 1) * m) % (size + 1) =
    size * k % (size + 1) := by
  rw [Nat.mul_add, Nat.mul_left_comm, Nat.add_mul_mod_self_left]

theorem setupTurn_stop {f' : JsonSourceFile}
    (hfill : fillBuffer maxSize g = (.error .stopIteration, f')) :
    Ends (setupTurn maxSize) g (.error .stopIteration) f' := by
  apply Ends.error
  unfold setupTurn
  exact bind_of_error hfill _

/-- The loop from a buffer that has been filled before. -/
theorem ends_fresh (hready : Ready none f) (hfill : fillBuffer maxSize g = (.ok (), f))
    (hwindow : window f = fresh size (size + 1) (ws ++ text)) (hws : White ws)
    (hbegins : Begins text) (hne : ws ++ text ≠ []) :
    if size * ws.length % (size + 1) < text.length then ∃ f',
      Ends (setupTurn maxSize) g (.ok ()) f' ∧ Ready none f' ∧
        window f' = fresh size (size + 1) text
    else ∃ f', Ends (setupTurn maxSize) g (.error .stopIteration) f' := by
  induction hlength : ws.length using Nat.strong_induction_on generalizing ws f g with
  | _ k ih =>
    have hall : (ws ++ text).length = k + text.length := by rw [List.length_append, hlength]
    rcases Nat.eq_zero_or_pos k with hzero | hpos
    · obtain rfl : ws = [] := List.eq_nil_of_length_eq_zero (hlength.trans hzero)
      have htext : 0 < text.length := List.length_pos_of_ne_nil hne
      obtain ⟨hstart, hsnippit⟩ := fresh_snippit hwindow
      have hskip : Json.skip f.snippit = f.snippit := by
        rw [hsnippit]
        exact skip_take white_nil hbegins
      have hturn := setupTurn_filled hfill hready hstart
      rw [hskip, JsonSourceFile.seek_self, decide_eq_false (by simp)] at hturn
      rw [hzero, Nat.mul_zero, Nat.zero_mod, if_pos htext]
      exact ⟨f, .stop hturn, hready, hwindow⟩
    · have hsome : ws ≠ [] := List.ne_nil_of_length_pos (hlength ▸ hpos)
      obtain ⟨g', hturn, hnext⟩ := setupTurn_white hready hfill hwindow hws hsome hbegins
        (Nat.succ_pos size) (Nat.le_refl _)
      rw [hall] at hnext
      split_ifs at hnext with hend
      · obtain ⟨f', hstop⟩ := hnext
        rw [if_neg]
        · exact ⟨f', (setupTurn_stop hstop).step hturn⟩
        · rw [mul_mod_succ hpos (by omega)]
          omega
      · obtain ⟨f', hok, hready', hwindow'⟩ := hnext
        have hless : (ws.drop (size + 1)).length = k - (size + 1) := by
          rw [List.length_drop, hlength]
        have hsome' : ws.drop (size + 1) ++ text ≠ [] := by
          apply List.ne_nil_of_length_pos
          rw [List.length_append, hless]
          omega
        have hrest := ih _ (by omega) hready' hok hwindow' (hws.drop _) hsome' hless
        have hiff : size * (k - (size + 1)) % (size + 1) < text.length ↔
            size * k % (size + 1) < text.length := by
          rcases Nat.le_total (size + 1) k with hmore | hfew
          · obtain ⟨m, rfl⟩ : ∃ m, k = m + (size + 1) * 1 := ⟨k - (size + 1), by omega⟩
            rw [mul_mod_add, Nat.mul_one, Nat.add_sub_cancel]
          · rw [mul_mod_succ hpos hfew, Nat.sub_eq_zero_of_le hfew, Nat.mul_zero, Nat.zero_mod]
            omega
        rw [if_congr hiff rfl rfl] at hrest
        split_ifs at hrest ⊢
        · obtain ⟨f'', hends, hready'', hwindow''⟩ := hrest
          exact ⟨f'', hends.step hturn, hready'', hwindow''⟩
        · obtain ⟨f'', hends⟩ := hrest
          exact ⟨f'', hends.step hturn⟩

/-- The loop from the first buffer. -/
theorem ends_leading (maxSize : ℕ) (hsize : 0 < size) (hws : White ws) (hne : ws ≠ [])
    (hbegins : Begins text) :
    if Refills size ws.length text.length then ∃ f',
      Ends (setupTurn maxSize) (.init (ws ++ text) size) (.ok ()) f' ∧ Ready none f' ∧
        window f' = fresh size (size + 1) text
    else ∃ f', Ends (setupTurn maxSize) (.init (ws ++ text) size) (.error .stopIteration) f' := by
  have hpos := List.length_pos_of_ne_nil hne
  have hall : (ws ++ text).length = ws.length + text.length := List.length_append
  have hsome : ws ++ text ≠ [] := List.append_ne_nil_of_left_ne_nil hne _
  obtain ⟨f, hfill, hready, hwindow⟩ := fillBuffer_init maxSize hsize hsome
  obtain ⟨g', hturn, hnext⟩ := setupTurn_white hready hfill hwindow hws hne hbegins hsize
    (Nat.le_succ size)
  rw [hall] at hnext
  split_ifs at hnext with hend
  · obtain ⟨f', hstop⟩ := hnext
    rw [if_neg]
    · exact ⟨f', (setupTurn_stop hstop).step hturn⟩
    · unfold Refills
      rw [mul_mod_succ (Nat.succ_pos _) (by omega)]
      omega
  · obtain ⟨f', hok, hready', hwindow'⟩ := hnext
    have hless : (ws.drop size).length = ws.length - size := List.length_drop
    have hsome' : ws.drop size ++ text ≠ [] := by
      apply List.ne_nil_of_length_pos
      rw [List.length_append, hless]
      omega
    have hrest := ends_fresh hready' hok hwindow' (hws.drop _) hbegins hsome'
    have hiff : size * (ws.drop size).length % (size + 1) < text.length ↔
        Refills size ws.length text.length := by
      unfold Refills
      rw [hless]
      rcases Nat.le_total size ws.length with hmore | hfew
      · have hsplit : ws.length + 1 = ws.length - size + (size + 1) * 1 := by omega
        rw [hsplit, mul_mod_add]
      · rw [mul_mod_succ (Nat.succ_pos _) (by omega), Nat.sub_eq_zero_of_le hfew, Nat.mul_zero,
          Nat.zero_mod]
        omega
    rw [if_congr hiff rfl rfl] at hrest
    split_ifs at hrest ⊢
    · obtain ⟨f'', hends, hready'', hwindow''⟩ := hrest
      exact ⟨f'', hends.step hturn, hready'', hwindow''⟩
    · obtain ⟨f'', hends⟩ := hrest
      exact ⟨f'', hends.step hturn⟩

/-- The whitespace a text begins with. -/
def lead (text : List Char) : List Char := text.takeWhile Json.isWhitespace

theorem lead_append (text : List Char) : lead text ++ Json.skip text = text :=
  List.takeWhile_append_dropWhile

theorem white_lead (text : List Char) : White (lead text) := fun _ hc => List.mem_takeWhile_imp hc

/-- The loop comes to a buffer that begins without whitespace. -/
def Starts (size : ℕ) (text : List Char) : Prop :=
  if lead text = [] then text ≠ []
  else Refills size (lead text).length (Json.skip text).length

/-- What is in that buffer: one character less if it is the first. -/
def start (size : ℕ) (text : List Char) : Window :=
  fresh size (if lead text = [] then size else size + 1) (Json.skip text)

theorem fillBuffer_nil (maxSize size : ℕ) (hsize : 0 < size) : ∃ f,
    fillBuffer maxSize (.init [] size) = (.error .stopIteration, f) := by
  let f : JsonSourceFile := ⟨[], none, false, size, some [], 0, 0, -1⟩
  refine ⟨f, ?_⟩
  unfold fillBuffer
  rw [bind_of_ok (show widen maxSize (.init [] size) = (.ok (), f) from rfl),
    bind_of_ok (show read _ f = (.ok size, f) from rfl),
    bind_of_ok (raiseIf_neg (by omega) _ f), bind_of_ok (show read _ f = (.ok [], f) from by
      cases size <;> rfl),
    bind_of_ok (show modify _ f = (.ok (), f) from by cases size <;> rfl),
    bind_of_error (raiseIf_pos rfl _ f)]

/-- The loop over leading whitespace, if there is any. -/
theorem ends_start (maxSize : ℕ) (hsize : 0 < size) (text : List Char) :
    (Starts size text → ∃ f, Ends (setupTurn maxSize) (.init text size) (.ok ()) f ∧ Ready none f ∧
      window f = start size text) ∧
    (¬Starts size text →
      ∃ f, Ends (setupTurn maxSize) (.init text size) (.error .stopIteration) f) := by
  have hbegins := begins_skip text
  unfold Starts start
  by_cases hlead : lead text = []
  · have hskip : Json.skip text = text := by
      have hsplit := lead_append text
      rwa [hlead] at hsplit
    rw [if_pos hlead, if_pos hlead, hskip]
    rw [hskip] at hbegins
    constructor
    · intro hne
      obtain ⟨f, hfill, hready, hwindow⟩ := fillBuffer_init maxSize hsize hne
      have hfresh : window f = fresh size size text := hwindow
      obtain ⟨hstart, hsnippit⟩ := fresh_snippit hfresh
      have hkept : Json.skip f.snippit = f.snippit := by
        have hnone : Json.skip (([] ++ text).take size) = (([] ++ text).take size).drop
          (min size 0) :=
          skip_take white_nil hbegins
        rw [hsnippit]
        simpa using hnone
      have hturn := setupTurn_filled hfill hready hstart
      rw [hkept, JsonSourceFile.seek_self, decide_eq_false (by simp)] at hturn
      exact ⟨f, .stop hturn, hready, hwindow⟩
    · intro hempty
      rw [ne_eq, not_not] at hempty
      subst hempty
      obtain ⟨f, hfill⟩ := fillBuffer_nil maxSize size hsize
      exact ⟨f, setupTurn_stop hfill⟩
  · have hends := ends_leading maxSize hsize (white_lead text) hlead hbegins
    rw [lead_append] at hends
    rw [if_neg hlead, if_neg hlead]
    constructor
    · intro hrefills
      rwa [if_pos hrefills] at hends
    · intro hrefills
      rwa [if_neg hrefills] at hends

theorem setup_of_ends {o : Outcome Raised Unit}
    (h : Ends (setupTurn maxSize) (.init text size) o f) : ∃ n, ∀ fuel, n ≤ fuel →
    setupFile maxSize fuel (.init text size) = after (fun _ => checkFirst) (o, f) := by
  obtain ⟨hover, n, hn⟩ := h
  refine ⟨n, fun fuel hfuel => ?_⟩
  have hturns : turns (setupTurn maxSize) fuel (.init text size) = (o, f) := by
    rw [← Nat.add_sub_cancel' hfuel, turns_stable (by rw [hn]; exact hover), hn]
  change after _ (turns (setupTurn maxSize) fuel (.init text size)) = _
  rw [hturns]

end Leading

/-! ### Imports -/

section Imports
variable {V : Type} {D : JSONDecoder V} {array : Bool} {maxSize size b n : ℕ}
  {ws text left : List Char} {rows : List V} {pieces : List (List V)} {e : Raised}
  {o : Outcome Raised Unit}

/-- An exception of `setup_file` is that of the import. -/
theorem comes_of_setup {e : Raised} {f : JsonSourceFile} (hb : 0 < b)
    (hsetup : ∀ fuel, n ≤ fuel → setupFile maxSize fuel (.init text size) = (.error e, f)) :
    Comes D maxSize size b text (.error e) [] := by
  refine ⟨n, fun fuel hfuel => ⟨f, [], false, ?_⟩⟩
  have hfile : onFile (setupFile maxSize fuel) (Job.init text size : Job V) =
      (.error e, (Job.init text size).setFile f) := by
    unfold onFile zoom
    rw [show (Job.init text size : Job V).file = .init text size from rfl, hsetup fuel hfuel]
  unfold batches
  dsimp only [Option.getD_some]
  rw [bind_of_ok (raiseIf_neg (by omega) _ _), bind_of_error hfile]
  rfl

/-- What the reader has before it when it comes to the first item. -/
def beginning (array : Bool) (size : ℕ) (text : List Char) : Window :=
  if array then (start size text).advance 1 else start size text

theorem beginning_text (array : Bool) (size : ℕ) (text : List Char) :
    (beginning array size text).text = behind array (Json.skip text) ∧
      (array && (beginning array size text).found) = false := by
  cases array <;> exact ⟨rfl, rfl⟩

theorem sound_beginning (hpos : 0 < size) (hmark : (Json.skip text).head? = some (mark array)) :
    (beginning array size text).Sound := by
  have hlength : 0 < (Json.skip text).length := by
    apply List.length_pos_of_ne_nil
    intro hnil
    rw [hnil] at hmark
    cases hmark
  have hseen : 0 < (start size text).seen ∧ (start size text).seen ≤ size + 1 := by
    change 0 < min (if lead text = [] then size else size + 1) (Json.skip text).length ∧
      min (if lead text = [] then size else size + 1) (Json.skip text).length ≤ size + 1
    split_ifs <;> omega
  have hsound : (start size text).Sound := by
    constructor
    · exact Nat.min_le_right _ _
    · exact hpos
    · intro h
      cases h
    · exact fun _ => hseen
  cases array with
  | true => exact hsound.advance hseen.1
  | false => exact hsound

/-- An import is a run from there, if it comes so far. -/
theorem comes_of_beginning (hpos : 0 < size) (hb : 0 < b)
    (hmark : (Json.skip text).head? = some (mark array)) (hstarts : Starts size text)
    (hruns : Runs D array maxSize (beginning array size text) rows e left) :
    ∃ o pieces, Comes D maxSize size b text o pieces ∧ (e = .stopIteration → Concluded o) ∧
      (e = .stopIteration → Cut b rows pieces ∧ (o = .ok () ↔ closed array left = true)) ∧
      (e ≠ .stopIteration → o = .error e) := by
  obtain ⟨f, hends, hready, hwindow⟩ := (ends_start maxSize hpos text).1 hstarts
  obtain ⟨hstart, -⟩ := fresh_snippit hwindow
  obtain ⟨n, hsetup⟩ := setup_of_ends hends
  have hmark' : (window f).text.head? = some (mark array) := by
    rw [hwindow]
    exact hmark
  obtain ⟨g, hg, hready', hwindow'⟩ := checkFirst_eq hready hstart hmark'
  rw [hwindow] at hwindow'
  have hsetup' (fuel : ℕ) (hfuel : n ≤ fuel) :
      setupFile maxSize fuel (.init text size) = (.ok (), g) := by
    rw [hsetup fuel hfuel]
    exact hg
  exact comes_of_runs hb hready' hwindow' hsetup' hruns

/-- If it does not, the exception for the end of the file gets out of the generator. -/
theorem comes_unfilled (hpos : 0 < size) (hb : 0 < b) (hstarts : ¬Starts size text) :
    Comes D maxSize size b text (.error .stopIteration) [] := by
  obtain ⟨f, hends⟩ := (ends_start maxSize hpos text).2 hstarts
  obtain ⟨n, hsetup⟩ := setup_of_ends hends
  exact comes_of_setup hb hsetup

theorem checkFirst_other {f : JsonSourceFile} (hready : Ready none f) (hpos : f.bufferPos = 0)
    (hother : ∀ array, (window f).text.head? ≠ some (mark array)) :
    ∃ message, checkFirst f = (.error (.valueError message), f) := by
  obtain ⟨str, hstr, -, hhead⟩ := snippit_head rfl hready hpos
  have harray := hother true
  have hobject := hother false
  rw [← hhead] at harray hobject
  unfold checkFirst
  rw [hstr, Option.getD_some]
  cases hfirst : str.head? with
  | none => exact ⟨_, rfl⟩
  | some c =>
    rw [hfirst] at harray hobject
    have hbracket : c ≠ '[' := fun h => harray (congrArg some h)
    have hbrace : c ≠ '{' := fun h => hobject (congrArg some h)
    split
    · rename_i h
      exact absurd (Option.some.inj h) hbracket
    · rename_i h
      exact absurd (Option.some.inj h) hbrace
    · exact ⟨_, rfl⟩
    · exact ⟨_, rfl⟩

/-- A text of neither an array nor objects is refused. -/
theorem comes_other (D : JSONDecoder V) (maxSize : ℕ) (hpos : 0 < size) (hb : 0 < b)
    (hstarts : Starts size text)
    (hother : ∀ array, (Json.skip text).head? ≠ some (mark array)) :
    ∃ message, Comes D maxSize size b text (.error (.valueError message)) [] := by
  obtain ⟨f, hends, hready, hwindow⟩ := (ends_start maxSize hpos text).1 hstarts
  obtain ⟨hstart, -⟩ := fresh_snippit hwindow
  obtain ⟨n, hsetup⟩ := setup_of_ends hends
  obtain ⟨message, hfails⟩ := checkFirst_other hready hstart fun array => by
    rw [hwindow]
    exact hother array
  have hsetup' (fuel : ℕ) (hfuel : n ≤ fuel) :
      setupFile maxSize fuel (.init text size) = (.error (.valueError message), f) := by
    rw [hsetup fuel hfuel]
    exact hfails
  exact ⟨message, comes_of_setup hb hsetup'⟩

end Imports

section Whitespace
variable {V : Type} {D : JSONDecoder V} {array : Bool} {maxSize size b : ℕ} {ws text : List Char}
  {pieces : List (List V)}

end Whitespace
end RethinkDB.Import.Source
