import RethinkDB.Lib.JsonText
import RethinkDB.Lib.Str

/-! Python modules of nested classes with constants in them: what such a text means. -/
namespace RethinkDB.Lib.PyModule

/-- The bindings of a module or a class body, one after another. -/
inductive Bindings where
  | nil
  | constant (name : List Char) (value : ℕ) (rest : Bindings)
  | cls (name : List Char) (inner rest : Bindings)
  deriving Repr, DecidableEq

inductive Stmt where
  | pass
  | cls (name : List Char)
  | assign (name : List Char) (value : ℕ)
  deriving Repr, DecidableEq

def keywords : List (List Char) :=
  ["False", "None", "True", "and", "as", "assert", "async", "await", "break", "class", "continue",
    "def", "del", "elif", "else", "except", "finally", "for", "from", "global", "if", "import",
    "in", "is", "lambda", "nonlocal", "not", "or", "pass", "raise", "return", "try", "while",
    "with", "yield"].map
    String.toList

def isNameChar (c : Char) : Bool := c.isAlphanum || c == '_'

structure Identifier (name : List Char) : Prop where
  ne_nil : name ≠ []
  chars : name.all isNameChar = true
  start : name.head?.any Char.isDigit = false
  keyword : name ∉ keywords

instance (name : List Char) : Decidable (Identifier name) :=
  decidable_of_iff (name ≠ [] ∧ name.all isNameChar = true ∧ name.head?.any Char.isDigit = false ∧
    keywords.contains name = false)
    ⟨fun h => ⟨h.1, h.2.1, h.2.2.1, by simpa using h.2.2.2⟩,
      fun h => ⟨h.1, h.2, h.3, by simpa using h.4⟩⟩

def decimal (cs : List Char) : Option ℕ :=
  match Json.parseNat cs with
  | some (n, []) => some n
  | _ => none

def readStmt (cs : List Char) : Option Stmt :=
  let word := cs.takeWhile isNameChar
  let rest := cs.dropWhile isNameChar
  if cs = "pass".toList then some .pass
  else if word = "class".toList then
    let name := (rest.drop 1).takeWhile isNameChar
    if rest = ' ' :: (name ++ [':']) ∧ Identifier name then some (.cls name) else none
  else if Identifier word ∧ " = ".toList.isPrefixOf rest = true then
    (decimal (rest.drop 3)).map (.assign word)
  else none

/-- A line: nothing but white space or a comment, or a statement behind its tabs. -/
inductive Line where
  | blank
  | stmt (indent : ℕ) (stmt : Stmt)
  | error
  deriving Repr, DecidableEq

def readLine (line : List Char) : Line :=
  let rest := line.dropWhile (· == '\t')
  if rest = [] ∨ rest.head? = some '#' then .blank
  else match readStmt rest with
    | some stmt => .stmt (line.takeWhile (· == '\t')).length stmt
    | none => .error

def statements : List (List Char) → Option (List (ℕ × Stmt))
  | [] => some []
  | line :: lines =>
    match readLine line with
    | .blank => statements lines
    | .stmt indent stmt => (statements lines).map ((indent, stmt) :: ·)
    | .error => none

/-- The statements of one block, all at its indentation; the body of a class is indented further and
is not empty. -/
def readSuite (indent : ℕ) : List (ℕ × Stmt) → Option Bindings
  | [] => some .nil
  | (i, stmt) :: stmts =>
    if i ≠ indent then none
    else match stmt with
      | .pass => readSuite indent stmts
      | .assign name value => (readSuite indent stmts).map (.constant name value)
      | .cls name =>
        match (stmts.takeWhile fun s => indent < s.1).head? with
        | none => none
        | some first => do
          let inner ← readSuite first.1 (stmts.takeWhile fun s => indent < s.1)
          let rest ← readSuite indent (stmts.dropWhile fun s => indent < s.1)
          return .cls name inner rest
  termination_by stmts => stmts.length
  decreasing_by
    all_goals rw [List.length_cons, Nat.lt_succ_iff]
    · exact (List.takeWhile_sublist _).length_le
    · exact (List.dropWhile_sublist _).length_le

def readModule (text : List Char) : Option Bindings :=
  (statements (text.splitOn '\n')).bind (readSuite 0)

/-! ### Reading what is laid out -/

/-- The statements of the bindings; a body that binds nothing is a `pass`. -/
def suite (indent : ℕ) : Bindings → List (ℕ × Stmt)
  | .nil => []
  | .constant name value rest => (indent, .assign name value) :: suite indent rest
  | .cls name inner rest =>
    (indent, .cls name) :: (if inner = .nil then [(indent + 1, .pass)]
      else suite (indent + 1) inner) ++
      suite indent rest

theorem le_of_mem_suite {indent : ℕ} {bs : Bindings} : ∀ s ∈ suite indent bs, indent ≤ s.1 := by
  induction bs generalizing indent with
  | nil =>
    intro s hs
    cases hs
  | constant name value rest ih =>
    intro s hs
    cases List.mem_cons.mp hs with
    | inl hs => rw [hs]
    | inr hs => exact ih s hs
  | cls name inner rest ihinner ih =>
    intro s hs
    rw [suite, List.cons_append, List.mem_cons, List.mem_append] at hs
    rcases hs with hs | hs | hs
    · rw [hs]
    · split at hs
      · rw [List.mem_singleton.mp hs]
        exact Nat.le_succ indent
      · exact (Nat.le_succ indent).trans (ihinner s hs)
    · exact ih s hs

/-- The next statement of a suite is at its own indentation. -/
theorem takeWhile_suite (indent : ℕ) (bs : Bindings) :
    (suite indent bs).takeWhile (fun s => indent < s.1) = [] ∧
      (suite indent bs).dropWhile (fun s => indent < s.1) = suite indent bs := by
  cases bs <;> simp [suite]

def body (indent : ℕ) (inner : Bindings) : List (ℕ × Stmt) :=
  if inner = .nil then [(indent + 1, .pass)] else suite (indent + 1) inner

theorem lt_of_mem_body {indent : ℕ} {inner : Bindings} :
    ∀ s ∈ body indent inner, decide (indent < s.1) = true := by
  intro s hs
  rw [decide_eq_true_iff]
  unfold body at hs
  split at hs
  · rw [List.mem_singleton.mp hs]
    exact Nat.lt_succ_self indent
  · exact le_of_mem_suite s hs

theorem head?_body (indent : ℕ) (inner : Bindings) :
    ∃ stmt, (body indent inner).head? = some (indent + 1, stmt) := by
  unfold body
  cases inner with
  | nil => exact ⟨.pass, rfl⟩
  | constant name value rest => exact ⟨.assign name value, rfl⟩
  | cls name inner rest => exact ⟨.cls name, rfl⟩

theorem readSuite_suite (indent : ℕ) (bs : Bindings) :
    readSuite indent (suite indent bs) = some bs := by
  induction bs generalizing indent with
  | nil =>
    rw [suite, readSuite]
  | constant name value rest ih =>
    rw [suite, readSuite, if_neg (by simp), ih]
    rfl
  | cls name inner rest ihinner ih =>
    have hbody : readSuite (indent + 1) (body indent inner) = some inner := by
      unfold body
      split
      · rename_i hnil
        rw [hnil, readSuite, if_neg (by simp)]
        exact readSuite.eq_1 _
      · exact ihinner (indent + 1)
    obtain ⟨stmt, hhead⟩ := head?_body indent inner
    change readSuite indent ((indent, .cls name) :: (body indent inner ++ suite indent rest)) = _
    rw [readSuite, if_neg (by simp), List.takeWhile_append_of_pos lt_of_mem_body,
      List.dropWhile_append_of_pos lt_of_mem_body,
      (takeWhile_suite indent rest).1, (takeWhile_suite indent rest).2, List.append_nil, hhead]
    dsimp only
    rw [hbody, ih]
    rfl

/-! ### Lines -/

section Lines
variable {indent value : ℕ} {name : List Char}

theorem decimal_toDigits (n : ℕ) : decimal (Nat.toDigits 10 n) = some n := by
  have h : Json.parseNat (Nat.toDigits 10 n ++ []) = some (n, []) :=
    Json.parseNat_toDigits n (by simp [Json.Follows])
  rw [List.append_nil] at h
  rw [decimal, h]

theorem Identifier.newline (h : Identifier name) : '\n' ∉ name := by
  intro hmem
  have hchar := List.all_eq_true.mp h.chars '\n' hmem
  cases hchar

theorem isDigit_of_decimal {cs : List Char} {n : ℕ} (h : decimal cs = some n) :
    ∀ c ∈ cs, c.isDigit = true := by
  unfold decimal at h
  split at h
  · rename_i n' hparse
    unfold Json.parseNat at hparse
    split at hparse
    · rw [(Prod.mk.inj (Option.some.inj hparse)).2]
      intro c hc
      rw [List.mem_singleton.mp hc]
      rfl
    · dsimp only at hparse
      split at hparse
      · cases hparse
      · exact List.dropWhile_eq_nil_iff.mp (Prod.mk.inj (Option.some.inj hparse)).2
  · cases h

theorem Identifier.head (h : Identifier name) : ∃ c cs, name = c :: cs ∧ isNameChar c = true := by
  obtain ⟨c, cs, rfl⟩ := List.exists_cons_of_ne_nil h.ne_nil
  exact ⟨c, cs, rfl, List.all_eq_true.mp h.chars c List.mem_cons_self⟩

/-- Behind its tabs is the statement, which starts with a character of a name. -/
theorem readLine_stmt {c : Char} {cs : List Char} {stmt : Stmt} (hc : isNameChar c = true)
    (h : readStmt (c :: cs) = some stmt) :
    readLine (List.replicate indent '\t' ++ c :: cs) = .stmt indent stmt := by
  have htab : (c == '\t') = false := by
    rw [beq_eq_false_iff_ne]
    rintro rfl
    cases hc
  have hhash : c ≠ '#' := by
    rintro rfl
    cases hc
  have htabs : ∀ d ∈ List.replicate indent '\t', (d == '\t') = true := by
    intro d hd
    rw [List.eq_of_mem_replicate hd]
    rfl
  unfold readLine
  rw [List.dropWhile_append_of_pos htabs, List.takeWhile_append_of_pos htabs,
    List.dropWhile_cons_of_neg (by simp [htab]), List.takeWhile_cons_of_neg (by simp [htab])]
  dsimp only
  rw [if_neg (by simp [hhash]), h]
  simp

theorem readLine_pass : readLine (List.replicate indent '\t' ++ "pass".toList) =
    .stmt indent .pass :=
  readLine_stmt rfl (by decide)

theorem takeWhile_name (h : Identifier name) {c : Char} (hc : isNameChar c = false)
    (cs : List Char) :
    (name ++ c :: cs).takeWhile isNameChar = name ∧
      (name ++ c :: cs).dropWhile isNameChar = c :: cs := by
  have hall := List.all_eq_true.mp h.chars
  rw [List.takeWhile_append_of_pos hall, List.dropWhile_append_of_pos hall,
    List.takeWhile_cons_of_neg (by simp [hc]), List.dropWhile_cons_of_neg (by simp [hc]),
    List.append_nil]
  exact ⟨rfl, rfl⟩

variable (indent) in
theorem readLine_cls (h : Identifier name) :
    readLine (List.replicate indent '\t' ++ ("class ".toList ++ name ++ ":".toList)) =
      .stmt indent (.cls name) := by
  apply readLine_stmt (show isNameChar 'c' = true from rfl)
  change readStmt ("class ".toList ++ name ++ ":".toList) = some (.cls name)
  have hword : ("class ".toList ++ name ++ ":".toList).takeWhile isNameChar = "class".toList ∧
      ("class ".toList ++ name ++ ":".toList).dropWhile isNameChar = ' ' :: (name ++ [':']) := by
    constructor
    · rfl
    · rfl
  have hname := (takeWhile_name h (show isNameChar ':' = false from rfl) []).1
  unfold readStmt
  rw [hword.1, hword.2]
  dsimp only
  rw [List.drop_one, List.tail_cons, hname, if_neg, if_pos rfl, if_pos ⟨rfl, h⟩]
  intro hpass
  cases hpass

theorem readStmt_assign (h : Identifier name) {text : List Char}
    (htext : decimal text = some value) :
    readStmt (name ++ " = ".toList ++ text) = some (.assign name value) := by
  have hcut := takeWhile_name h (show isNameChar ' ' = false from rfl) ("= ".toList ++ text)
  have hsame : name ++ " = ".toList ++ text = name ++ ' ' :: ("= ".toList ++ text) := by simp
  have hpass : name ++ ' ' :: ("= ".toList ++ text) ≠ "pass".toList := by
    intro hpass
    rw [hpass] at hcut
    exact h.keyword (hcut.1 ▸ by decide)
  have hclass : name ≠ "class".toList := by
    rintro rfl
    exact h.keyword (by decide)
  unfold readStmt
  rw [hsame, hcut.1, hcut.2]
  dsimp only
  rw [if_neg hpass, if_neg hclass, if_pos ⟨h, rfl⟩]
  change (decimal text).map (Stmt.assign name) = _
  rw [htext]
  rfl

theorem readLine_assign (h : Identifier name) {text : List Char}
    (htext : decimal text = some value) :
    readLine (List.replicate indent '\t' ++ (name ++ " = ".toList ++ text)) =
      .stmt indent (.assign name value) := by
  have hstmt := readStmt_assign h htext
  obtain ⟨c, cs, rfl, hc⟩ := h.head
  exact readLine_stmt hc hstmt

theorem readLine_blank : readLine (List.replicate indent '\t') = .blank := by
  have htabs : (List.replicate indent '\t').dropWhile (· == '\t') = [] := by
    rw [List.dropWhile_eq_nil_iff]
    intro d hd
    rw [List.eq_of_mem_replicate hd]
    rfl
  rw [readLine, htabs]
  exact if_pos (.inl rfl)

theorem statements_append {lines lines' : List (List Char)} {stmts stmts' : List (ℕ × Stmt)}
    (h : statements lines = some stmts) (h' : statements lines' = some stmts') :
    statements (lines ++ lines') = some (stmts ++ stmts') := by
  induction lines generalizing stmts with
  | nil =>
    rw [← Option.some.inj h]
    exact h'
  | cons line lines ih =>
    rw [List.cons_append, statements]
    rw [statements] at h
    cases hline : readLine line with
    | blank =>
      rw [hline] at h
      exact ih h
    | stmt indent stmt =>
      rw [hline] at h
      obtain ⟨rest, hrest, rfl⟩ := Option.map_eq_some_iff.mp h
      dsimp only
      rw [ih hrest]
      rfl
    | error =>
      rw [hline] at h
      cases h

theorem statements_cons {line : List Char} {lines : List (List Char)} {stmt : Stmt}
    {stmts : List (ℕ × Stmt)} (hline : readLine line = .stmt indent stmt)
    (h : statements lines = some stmts) :
    statements (line :: lines) = some ((indent, stmt) :: stmts) := by
  rw [statements, hline]
  dsimp only
  rw [h]
  rfl

theorem statements_blank {line : List Char} {lines : List (List Char)}
    (hline : readLine line = .blank) :
    statements (line :: lines) = statements lines := by
  rw [statements, hline]

end Lines

end RethinkDB.Lib.PyModule
