import RethinkDB.Lib.JsonText

/-! A value at the start of a text: what is behind it makes no difference, unless it is a number. -/
namespace RethinkDB.Lib.Json

/-- `raw_decode`: the value at the start of a text, and how far it goes. -/
def rawDecode (cs : List Char) : Option (Json × ℕ) :=
  (parseValue (cs.length + 1) cs).map fun p => (p.1, cs.length - p.2.length)

variable {fuel fuel' : ℕ} {cs rest more s : List Char} {item value : Json} {items : List Json}
  {fields : List (String × Json)}

/-! ### What is read -/

theorem skip_suffix (cs : List Char) : skip cs <:+ cs := List.dropWhile_suffix _

theorem suffix_of_skip {c : Char} (h : skip cs = c :: rest) : (c :: rest) <:+ cs := h ▸ skip_suffix cs

theorem skip_more (more : List Char) (h : skip cs ≠ []) : skip (cs ++ more) = skip cs ++ more := by
  unfold skip at h ⊢
  rw [List.dropWhile_append, if_neg (by simpa using h)]

theorem skip_more_cons {c : Char} (more : List Char) (h : skip cs = c :: rest) :
    skip (cs ++ more) = c :: (rest ++ more) := by
  rw [skip_more more (by rw [h]; simp), h]
  rfl

theorem parseItems_iff : parseItems (fuel + 1) cs = some (items, rest) ↔
    ∃ item left, parseValue fuel cs = some (item, left) ∧
      (skip left = ']' :: rest ∧ items = [item] ∨
        ∃ left' tail, skip left = ',' :: left' ∧ parseItems fuel (skip left') = some (tail, rest) ∧
          items = item :: tail) := by
  rw [parseItems, Option.bind_eq_bind, Option.bind_eq_some_iff]
  constructor
  · rintro ⟨⟨item, left⟩, hvalue, h⟩
    refine ⟨item, left, hvalue, ?_⟩
    dsimp only at h
    split at h
    · rename_i left' hskip
      cases h
      exact .inl ⟨hskip, rfl⟩
    · rename_i left' hskip
      obtain ⟨⟨tail, rest'⟩, htail, heq⟩ := Option.map_eq_some_iff.mp h
      cases heq
      exact .inr ⟨left', tail, hskip, htail, rfl⟩
    · cases h
  · rintro ⟨item, left, hvalue, h⟩
    refine ⟨(item, left), hvalue, ?_⟩
    rcases h with ⟨hskip, rfl⟩ | ⟨left', tail, hskip, htail, rfl⟩
    · simp only [hskip]
      rfl
    · simp only [hskip, htail]
      rfl

theorem parseFields_iff : parseFields (fuel + 1) cs = some (fields, rest) ↔
    ∃ text name left after value left', cs = '"' :: text ∧ parseString text = some (name, left) ∧
      skip left = ':' :: after ∧ parseValue fuel (skip after) = some (value, left') ∧
      (skip left' = '}' :: rest ∧ fields = [(.ofList name, value)] ∨
        ∃ next tail, skip left' = ',' :: next ∧ parseFields fuel (skip next) = some (tail, rest) ∧
          fields = (.ofList name, value) :: tail) := by
  constructor
  · intro h
    rw [parseFields.eq_def] at h
    split at h
    · rename_i heq
      cases heq
      obtain ⟨⟨name, left⟩, hname, h⟩ := Option.bind_eq_some_iff.mp h
      dsimp only at h
      split at h
      · rename_i after hafter
        obtain ⟨⟨value, left'⟩, hvalue, h⟩ := Option.bind_eq_some_iff.mp h
        refine ⟨_, name, left, after, value, left', rfl, hname, hafter, hvalue, ?_⟩
        dsimp only at h
        split at h
        · rename_i hskip
          cases h
          exact .inl ⟨hskip, rfl⟩
        · rename_i next hskip
          obtain ⟨⟨tail, rest'⟩, htail, heq⟩ := Option.map_eq_some_iff.mp h
          cases heq
          exact .inr ⟨next, tail, hskip, htail, rfl⟩
        · cases h
      · cases h
    · cases h
  · rintro ⟨text, name, left, after, value, left', rfl, hname, hafter, hvalue, h⟩
    rw [parseFields, hname, Option.bind_eq_bind, Option.bind_some]
    simp only [hafter, hvalue, Option.bind_eq_bind, Option.bind_some]
    rcases h with ⟨hskip, rfl⟩ | ⟨next, tail, hskip, htail, rfl⟩
    · simp only [hskip]
      rfl
    · simp only [hskip, htail]
      rfl

theorem parseValue_array {text : List Char} :
    parseValue (fuel + 1) ('[' :: text) = some (value, rest) ↔
      skip text = ']' :: rest ∧ value = .arr [] ∨ ∃ items, (skip text).head? ≠ some ']' ∧
        parseItems fuel (skip text) = some (items, rest) ∧ value = .arr items := by
  rw [parseValue]
  split
  · rename_i left hskip
    simp [hskip, eq_comm, and_comm]
  · rename_i hopen
    have hhead : (skip text).head? ≠ some ']' := by
      intro hhead
      obtain ⟨left, hleft⟩ := List.head?_eq_some_iff.mp hhead
      exact hopen left hleft
    constructor
    · intro h
      obtain ⟨⟨items, rest'⟩, hitems, heq⟩ := Option.map_eq_some_iff.mp h
      cases heq
      exact .inr ⟨items, hhead, hitems, rfl⟩
    · rintro (⟨hskip, -⟩ | ⟨items, -, hitems, rfl⟩)
      · exact absurd hskip (hopen rest)
      · rw [hitems]
        rfl

theorem parseValue_object {text : List Char} :
    parseValue (fuel + 1) ('{' :: text) = some (value, rest) ↔
      skip text = '}' :: rest ∧ value = .obj [] ∨ ∃ fields, (skip text).head? ≠ some '}' ∧
        parseFields fuel (skip text) = some (fields, rest) ∧ value = .obj (dict fields) := by
  rw [parseValue]
  split
  · rename_i left hskip
    simp [hskip, eq_comm, and_comm]
  · rename_i hopen
    have hhead : (skip text).head? ≠ some '}' := by
      intro hhead
      obtain ⟨left, hleft⟩ := List.head?_eq_some_iff.mp hhead
      exact hopen left hleft
    constructor
    · intro h
      obtain ⟨⟨fields, rest'⟩, hfields, heq⟩ := Option.map_eq_some_iff.mp h
      cases heq
      exact .inr ⟨fields, hhead, hfields, rfl⟩
    · rintro (⟨hskip, -⟩ | ⟨fields, -, hfields, rfl⟩)
      · exact absurd hskip (hopen rest)
      · rw [hfields]
        rfl

/-- What stands at the start of a value says what it is. -/
theorem parseValue_cases (h : parseValue (fuel + 1) cs = some (value, rest)) :
    (∃ word, cs = word ++ rest ∧ word ≠ [] ∧
      ∀ fuel' more, parseValue (fuel' + 1) (word ++ more) = some (value, more)) ∨
    (∃ text s, cs = '"' :: text ∧ parseString text = some (s, rest) ∧ value = .str (.ofList s)) ∨
    (∃ text, cs = '[' :: text) ∨ (∃ text, cs = '{' :: text) ∨
    (∃ text n, cs = '-' :: text ∧ parseNat text = some (n, rest) ∧ value = .int (-n)) ∨
    ∃ n, parseNat cs = some (n, rest) ∧ value = .int n := by
  rw [parseValue.eq_def] at h
  dsimp only at h
  split at h
  · cases h
    exact .inl ⟨['n', 'u', 'l', 'l'], rfl, by simp, fun _ _ => by simp [parseValue]⟩
  · cases h
    exact .inl ⟨['t', 'r', 'u', 'e'], rfl, by simp, fun _ _ => by simp [parseValue]⟩
  · cases h
    exact .inl ⟨['f', 'a', 'l', 's', 'e'], rfl, by simp, fun _ _ => by simp [parseValue]⟩
  · obtain ⟨⟨s, rest'⟩, hs, heq⟩ := Option.map_eq_some_iff.mp h
    cases heq
    exact .inr (.inl ⟨_, s, rfl, hs, rfl⟩)
  · exact .inr (.inr (.inl ⟨_, rfl⟩))
  · exact .inr (.inr (.inr (.inl ⟨_, rfl⟩)))
  · obtain ⟨⟨n, rest'⟩, hn, heq⟩ := Option.map_eq_some_iff.mp h
    cases heq
    exact .inr (.inr (.inr (.inr (.inl ⟨_, n, rfl, hn, rfl⟩))))
  · obtain ⟨⟨n, rest'⟩, hn, heq⟩ := Option.map_eq_some_iff.mp h
    cases heq
    exact .inr (.inr (.inr (.inr (.inr ⟨n, hn, rfl⟩))))

/-! ### How far it goes -/

theorem parseString_suffix (h : parseString cs = some (s, rest)) : ('"' :: rest) <:+ cs := by
  fun_induction parseString cs generalizing s rest with
  | case1 => cases h
  | case2 cs =>
    cases h
    exact List.suffix_rfl
  | case3 a b c d cs ih =>
    simp only [Option.bind_eq_bind, Option.bind_eq_some_iff] at h
    obtain ⟨_, _, _, _, _, _, _, _, h⟩ := h
    split at h
    · obtain ⟨p, hp, heq⟩ := Option.map_eq_some_iff.mp h
      cases heq
      have hsuffix : cs <:+ '\\' :: 'u' :: a :: b :: c :: d :: cs := ⟨['\\', 'u', a, b, c, d], rfl⟩
      exact (ih hp).trans hsuffix
    · cases h
  | case4 c cs _ ih =>
    obtain ⟨c', -, h⟩ := Option.bind_eq_some_iff.mp h
    obtain ⟨p, hp, heq⟩ := Option.map_eq_some_iff.mp h
    cases heq
    have hsuffix : cs <:+ '\\' :: c :: cs := ⟨['\\', c], rfl⟩
    exact (ih hp).trans hsuffix
  | case6 c cs _ _ _ _ ih =>
    obtain ⟨p, hp, heq⟩ := Option.map_eq_some_iff.mp h
    cases heq
    exact (ih hp).trans (List.suffix_cons c cs)
  | case5 => cases ‹none = some _›

theorem parseNat_suffix {n : ℕ} (h : parseNat cs = some (n, rest)) : ∃ c, (c :: rest) <:+ cs := by
  unfold parseNat at h
  split at h
  · cases h
    exact ⟨'0', List.suffix_rfl⟩
  · dsimp only at h
    split_ifs at h with hdigits
    cases h
    have hsplit : cs.takeWhile Char.isDigit ++ cs.dropWhile Char.isDigit = cs :=
      List.takeWhile_append_dropWhile
    have hlast := List.dropLast_append_getLast hdigits
    exact ⟨_, (cs.takeWhile Char.isDigit).dropLast, by rw [List.append_cons, hlast, hsplit]⟩

theorem parseNat_head {n : ℕ} (h : parseNat cs = some (n, rest)) :
    ∃ c text, cs = c :: text ∧ c.isDigit = true := by
  unfold parseNat at h
  split at h
  · exact ⟨'0', _, rfl, by decide⟩
  · dsimp only at h
    split_ifs at h with hdigits
    cases cs with
    | nil => exact absurd rfl hdigits
    | cons c text =>
      refine ⟨c, text, rfl, ?_⟩
      by_contra hc
      exact hdigits (List.takeWhile_cons_of_neg hc)

/-- Something is read, and an array or an object to its closing bracket. -/
theorem parse_suffix (fuel : ℕ) :
    (∀ {cs rest value}, parseValue fuel cs = some (value, rest) → ∃ c, (c :: rest) <:+ cs) ∧
    (∀ {cs rest items}, parseItems fuel cs = some (items, rest) → (']' :: rest) <:+ cs) ∧
    ∀ {cs rest fields}, parseFields fuel cs = some (fields, rest) → ('}' :: rest) <:+ cs := by
  induction fuel with
  | zero => exact ⟨by simp [parseValue], by simp [parseItems], by simp [parseFields]⟩
  | succ fuel ih =>
    obtain ⟨ihvalue, ihitems, ihfields⟩ := ih
    refine ⟨fun {cs rest value} h => ?_, fun {cs rest items} h => ?_, fun {cs rest fields} h => ?_⟩
    · rcases parseValue_cases h with ⟨word, rfl, hword, -⟩ | ⟨text, s, rfl, hs, -⟩ | ⟨text, rfl⟩ |
        ⟨text, rfl⟩ | ⟨text, n, rfl, hn, -⟩ | ⟨n, hn, -⟩
      · have hlast := List.dropLast_append_getLast hword
        exact ⟨word.getLast hword, word.dropLast, by rw [List.append_cons, hlast]⟩
      · exact ⟨_, (parseString_suffix hs).trans (List.suffix_cons _ _)⟩
      · rcases parseValue_array.mp h with ⟨hskip, -⟩ | ⟨items, -, hitems, -⟩
        · exact ⟨_, (suffix_of_skip hskip).trans (List.suffix_cons _ _)⟩
        · exact ⟨_, ((ihitems hitems).trans (skip_suffix text)).trans (List.suffix_cons _ _)⟩
      · rcases parseValue_object.mp h with ⟨hskip, -⟩ | ⟨fields, -, hfields, -⟩
        · exact ⟨_, (suffix_of_skip hskip).trans (List.suffix_cons _ _)⟩
        · exact ⟨_, ((ihfields hfields).trans (skip_suffix text)).trans (List.suffix_cons _ _)⟩
      · obtain ⟨c, hc⟩ := parseNat_suffix hn
        exact ⟨c, hc.trans (List.suffix_cons _ _)⟩
      · exact parseNat_suffix hn
    · obtain ⟨item, left, hvalue, h⟩ := parseItems_iff.mp h
      obtain ⟨c, hc⟩ := ihvalue hvalue
      have hleft : left <:+ cs := (List.suffix_cons c left).trans hc
      rcases h with ⟨hskip, -⟩ | ⟨left', tail, hskip, htail, -⟩
      · exact (suffix_of_skip hskip).trans hleft
      · have hnext : left' <:+ left := (List.suffix_cons _ _).trans (suffix_of_skip hskip)
        exact (((ihitems htail).trans (skip_suffix left')).trans hnext).trans hleft
    · obtain ⟨text, name, left, after, value, left', rfl, hname, hafter, hvalue, h⟩ :=
        parseFields_iff.mp h
      obtain ⟨c, hc⟩ := ihvalue hvalue
      have hleft : left <:+ '"' :: text :=
        ((List.suffix_cons _ _).trans (parseString_suffix hname)).trans (List.suffix_cons _ _)
      have hafter' : after <:+ left := (List.suffix_cons _ _).trans (suffix_of_skip hafter)
      have hleft' : left' <:+ '"' :: text :=
        ((((List.suffix_cons c left').trans hc).trans (skip_suffix after)).trans hafter').trans hleft
      rcases h with ⟨hskip, -⟩ | ⟨next, tail, hskip, htail, -⟩
      · exact (suffix_of_skip hskip).trans hleft'
      · have hnext : next <:+ left' := (List.suffix_cons _ _).trans (suffix_of_skip hskip)
        exact (((ihfields htail).trans (skip_suffix next)).trans hnext).trans hleft'

/-! ### What is behind it -/

theorem parseString_more (more : List Char) (h : parseString cs = some (s, rest)) :
    parseString (cs ++ more) = some (s, rest ++ more) := by
  fun_induction parseString cs generalizing s rest with
  | case1 => cases h
  | case2 cs =>
    cases h
    rfl
  | case3 a b c d cs ih =>
    simp only [Option.bind_eq_bind, Option.bind_eq_some_iff] at h
    obtain ⟨a', ha, b', hb, c', hc, d', hd, h⟩ := h
    simp only [List.cons_append]
    rw [parseString]
    simp only [ha, hb, hc, hd, Option.bind_eq_bind, Option.bind_some]
    split_ifs at h ⊢
    obtain ⟨p, hp, heq⟩ := Option.map_eq_some_iff.mp h
    cases heq
    rw [ih hp]
    rfl
  | case4 c cs hother ih =>
    obtain ⟨c', hc, h⟩ := Option.bind_eq_some_iff.mp h
    obtain ⟨p, hp, heq⟩ := Option.map_eq_some_iff.mp h
    cases heq
    have hne : c ≠ 'u' := by
      rintro rfl
      cases hc
    rw [List.cons_append, List.cons_append, parseString, hc]
    · rw [ih hp]
      rfl
    · exact fun _ _ _ _ _ hu => absurd hu hne
  | case6 c cs hquote _ hslash hspace ih =>
    obtain ⟨p, hp, heq⟩ := Option.map_eq_some_iff.mp h
    cases heq
    have hne : c ≠ '\\' := by
      cases cs with
      | nil => cases hp
      | cons next cs => exact fun hc => hslash next cs hc rfl
    rw [List.cons_append, parseString, if_neg hspace, ih hp]
    · rfl
    · exact hquote
    · exact fun _ _ _ _ _ hc => absurd hc hne
    · exact fun _ _ hc => absurd hc hne
  | case5 => cases ‹none = some _›

/-- Digits end where something else follows. -/
theorem parseNat_more {n : ℕ} (more : List Char) (h : parseNat cs = some (n, rest)) (hrest : rest ≠ []) :
    parseNat (cs ++ more) = some (n, rest ++ more) := by
  unfold parseNat at h
  split at h
  · cases h
    rfl
  · rename_i hzero
    dsimp only at h
    split_ifs at h with hdigits
    cases h
    have htake : (cs ++ more).takeWhile Char.isDigit = cs.takeWhile Char.isDigit := by
      rw [List.takeWhile_append, if_neg]
      intro hall
      have hlength := congrArg List.length (List.takeWhile_append_dropWhile (p := Char.isDigit) (l := cs))
      rw [List.length_append, hall] at hlength
      exact hrest (List.eq_nil_of_length_eq_zero (by omega))
    have hdrop : (cs ++ more).dropWhile Char.isDigit = cs.dropWhile Char.isDigit ++ more := by
      rw [List.dropWhile_append, if_neg (by simpa using hrest)]
    unfold parseNat
    split
    · rename_i heq
      cases cs with
      | nil => exact absurd rfl hdigits
      | cons c cs => exact absurd (congrArg (· :: cs) (List.cons.inj heq).1) (hzero cs)
    · dsimp only
      rw [htake, if_neg hdigits, hdrop]

theorem ne_nil_of_suffix {c : Char} (h : (c :: rest) <:+ cs) : cs ≠ [] := by
  rintro rfl
  cases List.suffix_nil.mp h

/-- With more fuel, and with more behind it, the same is read. -/
theorem parse_more (fuel : ℕ) :
    (∀ {fuel' cs rest value} more, fuel ≤ fuel' → parseValue fuel cs = some (value, rest) →
      rest ≠ [] ∨ (∀ n, value ≠ .int n) → parseValue fuel' (cs ++ more) = some (value, rest ++ more)) ∧
    (∀ {fuel' cs rest items} more, fuel ≤ fuel' → parseItems fuel cs = some (items, rest) →
      parseItems fuel' (cs ++ more) = some (items, rest ++ more)) ∧
    ∀ {fuel' cs rest fields} more, fuel ≤ fuel' → parseFields fuel cs = some (fields, rest) →
      parseFields fuel' (cs ++ more) = some (fields, rest ++ more) := by
  induction fuel with
  | zero => exact ⟨by simp [parseValue], by simp [parseItems], by simp [parseFields]⟩
  | succ fuel ih =>
    obtain ⟨ihvalue, ihitems, ihfields⟩ := ih
    refine ⟨fun {fuel' cs rest value} more hle h hends => ?_, fun {fuel' cs rest items} more hle h => ?_,
      fun {fuel' cs rest fields} more hle h => ?_⟩
    all_goals
      obtain ⟨fuel', rfl⟩ : ∃ n, fuel' = n + 1 := ⟨fuel' - 1, by omega⟩
      have hle' : fuel ≤ fuel' := by omega
    · rcases parseValue_cases h with ⟨word, rfl, -, hword⟩ | ⟨text, s, rfl, hs, rfl⟩ | ⟨text, rfl⟩ |
        ⟨text, rfl⟩ | ⟨text, n, rfl, hn, rfl⟩ | ⟨n, hn, rfl⟩
      · rw [List.append_assoc]
        exact hword fuel' _
      · rw [List.cons_append, parseValue, parseString_more more hs]
        rfl
      · apply parseValue_array.mpr
        rcases parseValue_array.mp h with ⟨hskip, hvalue⟩ | ⟨items, hopen, hitems, hvalue⟩
        · exact .inl ⟨skip_more_cons more hskip, hvalue⟩
        · have hne := ne_nil_of_suffix ((parse_suffix fuel).2.1 hitems)
          refine .inr ⟨items, ?_, ?_, hvalue⟩
          · change (skip (text ++ more)).head? ≠ _
            rwa [skip_more more hne, List.head?_append_of_ne_nil _ hne]
          · change parseItems _ (skip (text ++ more)) = _
            rw [skip_more more hne]
            exact ihitems more hle' hitems
      · apply parseValue_object.mpr
        rcases parseValue_object.mp h with ⟨hskip, hvalue⟩ | ⟨fields, hopen, hfields, hvalue⟩
        · exact .inl ⟨skip_more_cons more hskip, hvalue⟩
        · have hne := ne_nil_of_suffix ((parse_suffix fuel).2.2 hfields)
          refine .inr ⟨fields, ?_, ?_, hvalue⟩
          · change (skip (text ++ more)).head? ≠ _
            rwa [skip_more more hne, List.head?_append_of_ne_nil _ hne]
          · change parseFields _ (skip (text ++ more)) = _
            rw [skip_more more hne]
            exact ihfields more hle' hfields
      · have hrest : rest ≠ [] := hends.resolve_right fun h => h _ rfl
        rw [List.cons_append, parseValue, parseNat_more more hn hrest]
        rfl
      · have hrest : rest ≠ [] := hends.resolve_right fun h => h _ rfl
        obtain ⟨c, text, rfl, hc⟩ := parseNat_head hn
        rw [List.cons_append, parseValue_digit hc, ← List.cons_append, parseNat_more more hn hrest]
        rfl
    · obtain ⟨item, left, hvalue, h⟩ := parseItems_iff.mp h
      have hleft : left ≠ [] := by
        rintro rfl
        rcases h with ⟨hskip, -⟩ | ⟨left', tail, hskip, -⟩ <;> cases hskip
      refine parseItems_iff.mpr ⟨item, left ++ more, ihvalue more hle' hvalue (.inl hleft), ?_⟩
      rcases h with ⟨hskip, rfl⟩ | ⟨left', tail, hskip, htail, rfl⟩
      · exact .inl ⟨skip_more_cons more hskip, rfl⟩
      · have hnext := ne_nil_of_suffix ((parse_suffix fuel).2.1 htail)
        refine .inr ⟨left' ++ more, tail, skip_more_cons more hskip, ?_, rfl⟩
        rw [skip_more more hnext]
        exact ihitems more hle' htail
    · obtain ⟨text, name, left, after, value, left', rfl, hname, hafter, hvalue, h⟩ :=
        parseFields_iff.mp h
      have hleft : left' ≠ [] := by
        rintro rfl
        rcases h with ⟨hskip, -⟩ | ⟨next, tail, hskip, -⟩ <;> cases hskip
      obtain ⟨c, hc⟩ := (parse_suffix fuel).1 hvalue
      have hvalue' := ihvalue more hle' hvalue (.inl hleft)
      rw [← skip_more more (ne_nil_of_suffix hc)] at hvalue'
      refine parseFields_iff.mpr ⟨text ++ more, name, left ++ more, after ++ more, value, left' ++ more,
        rfl, parseString_more more hname, skip_more_cons more hafter, hvalue', ?_⟩
      rcases h with ⟨hskip, rfl⟩ | ⟨next, tail, hskip, htail, rfl⟩
      · exact .inl ⟨skip_more_cons more hskip, rfl⟩
      · have hnext := ne_nil_of_suffix ((parse_suffix fuel).2.2 htail)
        refine .inr ⟨next ++ more, tail, skip_more_cons more hskip, ?_, rfl⟩
        rw [skip_more more hnext]
        exact ihfields more hle' htail

/-! ### `raw_decode` -/

/-- The text of an object, and nothing else. -/
def Object (doc : List Char) (value : Json) : Prop :=
  doc.head? = some '{' ∧ parseValue (doc.length + 1) doc = some (value, [])

theorem rawDecode_eq {n : ℕ} : rawDecode cs = some (value, n) ↔
    ∃ rest, parseValue (cs.length + 1) cs = some (value, rest) ∧ cs.length - rest.length = n := by
  constructor
  · intro h
    obtain ⟨⟨value', rest⟩, hvalue, heq⟩ := Option.map_eq_some_iff.mp h
    cases heq
    exact ⟨rest, hvalue, rfl⟩
  · rintro ⟨rest, hvalue, rfl⟩
    rw [rawDecode, hvalue]
    rfl

theorem rawDecode_within {n : ℕ} (h : rawDecode cs = some (value, n)) : 0 < n ∧ n ≤ cs.length := by
  obtain ⟨rest, hvalue, rfl⟩ := rawDecode_eq.mp h
  obtain ⟨c, hsuffix⟩ := (parse_suffix _).1 hvalue
  have hlength := hsuffix.length_le
  rw [List.length_cons] at hlength
  omega

theorem rawDecode_bracket (rest : List Char) : rawDecode (']' :: rest) = none := rfl

variable {doc : List Char}

theorem Object.eq_obj (h : Object doc value) : ∃ text fields, doc = '{' :: text ∧ value = .obj fields ∧
    ['}'] <:+ text := by
  obtain ⟨hhead, hvalue⟩ := h
  obtain ⟨text, rfl⟩ := List.head?_eq_some_iff.mp hhead
  rcases parseValue_object.mp hvalue with ⟨hskip, rfl⟩ | ⟨fields, -, hfields, rfl⟩
  · exact ⟨text, [], rfl, rfl, suffix_of_skip hskip⟩
  · exact ⟨text, _, rfl, rfl, ((parse_suffix _).2.2 hfields).trans (skip_suffix text)⟩

theorem Object.braces (h : Object doc value) : ∃ body, doc = '{' :: (body ++ ['}']) := by
  obtain ⟨text, -, rfl, -, body, hbody⟩ := h.eq_obj
  exact ⟨body, by rw [hbody]⟩

/-- It is read whatever is behind it. -/
theorem Object.rawDecode (rest : List Char) (h : Object doc value) :
    rawDecode (doc ++ rest) = some (value, doc.length) := by
  obtain ⟨-, fields, -, rfl, -⟩ := h.eq_obj
  have hlength : doc.length + 1 ≤ (doc ++ rest).length + 1 := by
    rw [List.length_append]
    omega
  have hmore := (parse_more _).1 rest hlength h.2 (.inr (by simp))
  refine rawDecode_eq.mpr ⟨rest, hmore, ?_⟩
  rw [List.length_append]
  omega

/-- No part of it is. -/
theorem Object.take {n : ℕ} (h : Object doc value) (hn : n < doc.length) :
    Json.rawDecode (doc.take n) = none := by
  cases hpart : Json.rawDecode (doc.take n) with
  | none => rfl
  | some found =>
    exfalso
    obtain ⟨rest, hvalue, -⟩ := rawDecode_eq.mp (show _ = some (found.1, found.2) from hpart)
    obtain ⟨text, -, rfl, -⟩ := h.eq_obj
    have hpos := (rawDecode_within hpart).1
    cases n with
    | zero => cases hvalue
    | succ n =>
      have hends : ∀ n, found.1 ≠ .int n := by
        rcases parseValue_object.mp hvalue with ⟨-, hfound⟩ | ⟨fields, -, -, hfound⟩ <;> simp [hfound]
      have hlength : (('{' :: text).take (n + 1)).length + 1 ≤ ('{' :: text).length + 1 := by
        rw [List.length_take]
        omega
      have hmore := (parse_more _).1 (('{' :: text).drop (n + 1)) hlength hvalue (.inr hends)
      rw [List.take_append_drop, h.2] at hmore
      have hnil := (List.append_eq_nil_iff.mp (Prod.mk.inj (Option.some.inj hmore)).2.symm).2
      have := congrArg List.length hnil
      rw [List.length_drop, List.length_nil] at this
      omega

end RethinkDB.Lib.Json
