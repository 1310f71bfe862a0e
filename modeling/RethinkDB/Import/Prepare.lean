import Mathlib.Data.List.Dedup
import RethinkDB.Import.Metadata
import RethinkDB.Lib.Except

/-! `import_tables` up to the start of its processes: the databases that it makes, and the tables
that it does not import into. -/
namespace RethinkDB.Import.Prepare
open RethinkDB.Lib Prog

/-- What the queries are about, the primary keys of the tables among it; each query is under
`retryQuery`. -/
structure Admin where
  State : Type
  dbs : State → Set String
  primaryKey : State → String × String → Option String
  ensureDbs : List String → Prog State MetaExn Unit
  listTables : Prog State MetaExn (List ((String × String) × String))

/-- The documented behaviour of the queries; `raises` tells what they may raise. -/
structure Documented (A : Admin) (raises : MetaExn → Prop) : Prop where
  ensureDbs : ∀ needed s, wp (A.ensureDbs needed) (fun o s' => o ≠ .running ∧
    (∀ e, o = .error e → raises e) ∧ A.primaryKey s' = A.primaryKey s ∧
    A.dbs s ⊆ A.dbs s' ∧ (∀ db ∈ A.dbs s', db ∈ A.dbs s ∨ db ∈ needed) ∧
    (o = .ok () → ∀ db ∈ needed, db ∈ A.dbs s')) s
  listTables : ∀ s, wp A.listTables (fun o s' => o ≠ .running ∧ s' = s ∧
    (∀ e, o = .error e → raises e) ∧
    ∀ rows, o = .ok rows → ∀ name key, (name, key) ∈ rows ↔ A.primaryKey s name = some key) s

/-- `"%s.%s" % (source.db, source.table)`. -/
def fullName (source : SourceFile) : String := source.db ++ "." ++ source.table

def systemDb : MetaExn :=
  .runtimeError "Error: Cannot import tables into the system database: 'rethinkdb'"

def differentKey (source : SourceFile) (key expected : String) : MetaExn :=
  .runtimeError ("Error: Table '" ++ fullName source ++
    "' already exists with a different primary key: " ++ key ++ " (expected: " ++ expected ++ ")")

/-- One turn of the loop over the sources: what it adds to `already_exist`, and the source. -/
def checkSource (force : Bool) (existingTables : String × String → Option String)
    (source : SourceFile) : Except MetaExn (List String × SourceFile) :=
  match existingTables (source.db, source.table) with
  | none => .ok ([], source)
  | some key =>
    if force = false then .ok ([fullName source], source)
    else match source.primaryKey with
      | none => .ok ([], { source with primaryKey := some key })
      | some expected =>
        if expected ≠ key then .error (differentKey source key expected) else .ok ([], source)

def le (a b : String) : Bool :=
  !List.lex b.toList a.toList fun c d => decide (c.toNat < d.toNat)

/-- What a nonempty `already_exist` raises. -/
def refusal : List String → Option MetaExn
  | [] => none
  | [table] => some (.runtimeError ("Error: Table '" ++ table ++
      "' already exists, run with --force to import into the existing table"))
  | tables => some (.runtimeError ("Error: The following tables already exist, run with " ++
      "--force to import into the existing tables:\n  " ++
      "\n  ".intercalate (tables.mergeSort le)))

/-- `import_tables` from `needed_dbs` to `already_exist`, with the sources as it leaves them. -/
def prepare (A : Admin) (force : Bool) (sources : List SourceFile) :
    Prog A.State MetaExn (List SourceFile) := do
  let neededDbs := (sources.map SourceFile.db).dedup
  raiseIf ("rethinkdb" ∈ neededDbs) systemDb
  A.ensureDbs neededDbs
  let rows ← A.listTables
  let checked ← ofExcept (sources.mapM (checkSource force fun name => rows.reverse.lookup name))
  match refusal (checked.flatMap Prod.fst) with
  | none => return checked.map Prod.snd
  | some e => throw e

/-! ### The tables that are there -/

/-- The rows hold a table each, so that it does not matter which comes last. -/
theorem lookup_rows {tables : String × String → Option String}
    {rows : List ((String × String) × String)}
    (h : ∀ name key, (name, key) ∈ rows ↔ tables name = some key) :
    (fun name => rows.reverse.lookup name) = tables := by
  funext name
  cases hlookup : rows.reverse.lookup name with
  | none =>
    rw [List.lookup_eq_none_iff] at hlookup
    cases htable : tables name with
    | none => rfl
    | some key =>
      have hmem := List.mem_reverse.mpr ((h name key).mpr htable)
      exact absurd (hlookup _ hmem) (by simp)
  | some key =>
    obtain ⟨before, after, hrows, -⟩ := List.lookup_eq_some_iff.mp hlookup
    have hmem : (name, key) ∈ rows := by
      rw [← List.mem_reverse, hrows]
      simp
    exact ((h name key).mp hmem).symm

variable {tables : String × String → Option String} {force : Bool} {source : SourceFile}
  {sources : List SourceFile}

/-- The import may go into the table: it is not there, or `--force` is given and the primary key is
not known, or that of the table. -/
def Admits (force : Bool) (tables : String × String → Option String) (source : SourceFile) : Prop :=
  ∀ key, tables (source.db, source.table) = some key →
    force = true ∧ (source.primaryKey = none ∨ source.primaryKey = some key)

/-- The source with the primary key of a table that is there. -/
def settle (tables : String × String → Option String) (source : SourceFile) : SourceFile :=
  { source with primaryKey := (tables (source.db, source.table)).or source.primaryKey }

/-- A table that is there under another primary key. -/
def Clashes (tables : String × String → Option String) (source : SourceFile) (e : MetaExn) : Prop :=
  ∃ key expected, tables (source.db, source.table) = some key ∧ source.primaryKey = some expected ∧
    expected ≠ key ∧ e = differentKey source key expected

theorem checkSource_error {e : MetaExn} (h : checkSource force tables source = .error e) :
    force = true ∧ Clashes tables source e := by
  unfold checkSource at h
  cases htable : tables (source.db, source.table) with
  | none =>
    rw [htable] at h
    cases h
  | some key =>
    rw [htable] at h
    dsimp only at h
    split_ifs at h with hforce
    cases hexpected : source.primaryKey with
    | none =>
      rw [hexpected] at h
      cases h
    | some expected =>
      rw [hexpected] at h
      dsimp only at h
      split_ifs at h with hne
      cases h
      exact ⟨by simpa using hforce, key, expected, htable, hexpected, hne, rfl⟩

/-- Without `--force` no source changes and the tables that are there are named. -/
theorem checkSource_unforced : checkSource false tables source =
    .ok (if (tables (source.db, source.table)).isSome then [fullName source] else [], source) := by
  unfold checkSource
  cases tables (source.db, source.table) with
  | none => rfl
  | some key => rfl

theorem checkSource_forced {names : List String} {source' : SourceFile}
    (h : checkSource true tables source = .ok (names, source')) :
    names = [] ∧ source' = settle tables source ∧ Admits true tables source := by
  unfold checkSource at h
  unfold settle Admits
  cases htable : tables (source.db, source.table) with
  | none =>
    rw [htable] at h
    cases h
    exact ⟨rfl, rfl, nofun⟩
  | some key =>
    rw [htable] at h
    dsimp only at h
    rw [if_neg Bool.true_eq_false.mp] at h
    cases hexpected : source.primaryKey with
    | none =>
      rw [hexpected] at h
      cases h
      exact ⟨rfl, rfl, fun _ _ => ⟨rfl, .inl rfl⟩⟩
    | some expected =>
      rw [hexpected] at h
      dsimp only at h
      split_ifs at h with hne
      cases h
      obtain rfl := not_not.mp hne
      refine ⟨rfl, ?_, fun key' hkey => ⟨rfl, .inr hkey⟩⟩
      rw [Option.some_or, ← hexpected]

/-! ### The whole loop -/

/-- The sources whose tables are there, by their names. -/
def existing (tables : String × String → Option String) (sources : List SourceFile) : List String :=
  (sources.filter fun source => (tables (source.db, source.table)).isSome).map fullName

theorem mapM_unforced : sources.mapM (checkSource false tables) = .ok (sources.map fun source =>
    (if (tables (source.db, source.table)).isSome then [fullName source] else [], source)) := by
  rw [mapM_eq_ok, List.forall₂_map_right_iff, List.forall₂_same]
  exact fun source _ => checkSource_unforced

theorem flatMap_existing : (sources.map fun source =>
    (if (tables (source.db, source.table)).isSome then [fullName source] else [], source)).flatMap
      Prod.fst = existing tables sources := by
  induction sources with
  | nil => rfl
  | cons source sources ih =>
    rw [List.map_cons, List.flatMap_cons, ih]
    unfold existing
    cases htable : (tables (source.db, source.table)).isSome with
    | true => simp [htable]
    | false => simp [htable]

theorem refusal_eq_none {names : List String} : refusal names = none ↔ names = [] := by
  cases names with
  | nil => simp [refusal]
  | cons name names =>
    cases names with
    | nil => simp [refusal]
    | cons name' names => simp [refusal]

theorem admits_of_existing (h : existing tables sources = []) :
    ∀ source ∈ sources, tables (source.db, source.table) = none := by
  intro source hsource
  rw [existing, List.map_eq_nil_iff, List.filter_eq_nil_iff] at h
  simpa using h source hsource

theorem mapM_forced {checked : List (List String × SourceFile)}
    (h : sources.mapM (checkSource true tables) = .ok checked) :
    checked.flatMap Prod.fst = [] ∧ checked.map Prod.snd = sources.map (settle tables) ∧
      ∀ source ∈ sources, Admits true tables source := by
  rw [mapM_eq_ok] at h
  induction h with
  | nil => exact ⟨rfl, rfl, nofun⟩
  | cons hsource _ ih =>
    obtain ⟨hnames, hsettle, hadmits⟩ := checkSource_forced hsource
    rw [List.flatMap_cons, hnames, List.map_cons, hsettle, List.map_cons, ih.2.1,
      List.forall_mem_cons]
    exact ⟨ih.1, rfl, hadmits, ih.2.2⟩

inductive Refused (force : Bool) (tables : String × String → Option String)
    (sources : List SourceFile) (e : MetaExn) : Prop where
  | systemDb (source : SourceFile) (hsource : source ∈ sources) (hdb : source.db = "rethinkdb")
      (he : e = systemDb)
  | clash (source : SourceFile) (hforce : force = true) (hsource : source ∈ sources)
      (h : Clashes tables source e)
  | exist (hforce : force = false) (h : refusal (existing tables sources) = some e)

/-- What the two checks come to. -/
theorem checked_spec {checked : List (List String × SourceFile)}
    (h : sources.mapM (checkSource force tables) = .ok checked) :
    (∀ e, refusal (checked.flatMap Prod.fst) = some e → Refused force tables sources e) ∧
    (refusal (checked.flatMap Prod.fst) = none →
      checked.map Prod.snd = sources.map (settle tables) ∧
        ∀ source ∈ sources, Admits force tables source) := by
  cases force with
  | true =>
    obtain ⟨hnames, hready, hadmits⟩ := mapM_forced h
    rw [hnames]
    exact ⟨nofun, fun _ => ⟨hready, hadmits⟩⟩
  | false =>
    rw [mapM_unforced] at h
    cases h
    rw [flatMap_existing]
    constructor
    · exact fun e he => .exist rfl he
    · intro hnone
      have hfree := admits_of_existing (refusal_eq_none.mp hnone)
      constructor
      · rw [List.map_map]
        apply List.map_congr_left
        intro source hsource
        rw [settle, hfree source hsource, Option.none_or]
        rfl
      · intro source hsource key hkey
        rw [hfree source hsource] at hkey
        cases hkey

variable {A : Admin} {raises : MetaExn → Prop}

/-- Whatever the sources: no table is touched, and no database but those of the sources is made.
What goes on has its databases there, none of them the system database, and every source either
without a table of its name or, under `--force`, with the primary key of that table. It is refused
only for one of the three reasons, unless a query raises. -/
theorem prepare_ready (hA : Documented A raises) (force : Bool) (sources : List SourceFile)
    (s : A.State) :
    wp (prepare A force sources) (fun o s' => o ≠ .running ∧
      A.primaryKey s' = A.primaryKey s ∧ A.dbs s ⊆ A.dbs s' ∧
      (∀ db ∈ A.dbs s', db ∈ A.dbs s ∨ ∃ source ∈ sources, source.db = db) ∧
      (∀ ready, o = .ok ready → ready = sources.map (settle (A.primaryKey s)) ∧
        ∀ source ∈ sources, source.db ≠ "rethinkdb" ∧ source.db ∈ A.dbs s' ∧
          Admits force (A.primaryKey s) source) ∧
      (∀ e, o = .error e → raises e ∨ Refused force (A.primaryKey s) sources e)) s := by
  have hneeded : ∀ db, db ∈ (sources.map SourceFile.db).dedup ↔ ∃ source ∈ sources,
      source.db = db := by
    intro db
    rw [List.mem_dedup, List.mem_map]
  unfold prepare
  dsimp only
  apply wp_raiseIf_bind
  · intro hsystem
    obtain ⟨source, hsource, hdb⟩ := (hneeded _).mp hsystem
    refine ⟨nofun, rfl, subset_rfl, fun db hdb => .inl hdb, nofun, fun e he => ?_⟩
    cases he
    exact .inr (.systemDb source hsource hdb rfl)
  · intro hsystem
    have hother : ∀ source ∈ sources, source.db ≠ "rethinkdb" :=
      fun source hsource hdb => hsystem ((hneeded _).mpr ⟨source, hsource, hdb⟩)
    rw [wp_bind]
    apply (hA.ensureDbs _ s).mono
    intro o s₁ hensure
    obtain ⟨hback, herror, htables, hkept, honly, hthere⟩ := hensure
    have honly' : ∀ db ∈ A.dbs s₁, db ∈ A.dbs s ∨ ∃ source ∈ sources, source.db = db :=
      fun db hdb => (honly db hdb).imp_right (hneeded db).mp
    cases o with
    | running => exact absurd rfl hback
    | error e =>
      refine ⟨nofun, htables, hkept, honly', nofun, fun e' he => ?_⟩
      cases he
      exact .inl (herror e rfl)
    | ok =>
      rw [bindPost_ok, wp_bind]
      apply (hA.listTables s₁).mono
      intro o s₂ hlist
      obtain ⟨hback, rfl, herror, hrows⟩ := hlist
      cases o with
      | running => exact absurd rfl hback
      | error e =>
        refine ⟨nofun, htables, hkept, honly', nofun, fun e' he => ?_⟩
        cases he
        exact .inl (herror e rfl)
      | ok rows =>
        rw [bindPost_ok]
        rw [htables] at hrows
        rw [lookup_rows (hrows rows rfl)]
        cases hchecked : sources.mapM (checkSource force (A.primaryKey s)) with
        | error e =>
          rw [wp_bind, wp_ofExcept_error]
          refine ⟨nofun, htables, hkept, honly', nofun, fun e' he => ?_⟩
          cases he
          obtain ⟨source, hsource, hraised⟩ := mapM_eq_error hchecked
          obtain ⟨hforce, hclash⟩ := checkSource_error hraised
          exact .inr (.clash source hforce hsource hclash)
        | ok checked =>
          obtain ⟨hrefused, hready⟩ := checked_spec hchecked
          rw [wp_bind, wp_ofExcept_ok, bindPost_ok]
          cases hrefusal : refusal (checked.flatMap Prod.fst) with
          | some e =>
            refine ⟨nofun, htables, hkept, honly', nofun, fun e' he => ?_⟩
            cases he
            exact .inr (hrefused e hrefusal)
          | none =>
            refine ⟨nofun, htables, hkept, honly', fun ready heq => ?_, nofun⟩
            cases heq
            obtain ⟨hsettled, hadmits⟩ := hready hrefusal
            exact ⟨hsettled, fun source hsource => ⟨hother source hsource,
              hthere rfl _ ((hneeded _).mpr ⟨source, hsource, rfl⟩), hadmits source hsource⟩⟩

/-- A server with one table, whose state is its databases. -/
def oneTable : Admin where
  State := List String
  dbs names := {name | name ∈ names}
  primaryKey _ name := if name = ("shop", "users") then some "id" else none
  ensureDbs needed := modify fun names => names ++ needed
  listTables := pure [(("shop", "users"), "id")]

theorem documented_oneTable : Documented oneTable fun _ => False where
  ensureDbs needed s := by
    refine ⟨nofun, nofun, rfl, fun db hdb => List.mem_append_left _ hdb,
      fun db hdb => List.mem_append.mp hdb, fun _ db hdb => List.mem_append_right _ hdb⟩
  listTables s := by
    refine ⟨nofun, rfl, nofun, fun rows hrows name key => ?_⟩
    cases hrows
    simp only [oneTable, List.mem_singleton, Prod.mk.injEq]
    split_ifs with hname <;> simp [hname, eq_comm]

/-- The file of that table, and one of a table in another database. -/
def twoSources : List SourceFile :=
  [⟨"shop", "users", none, [], .arr []⟩, ⟨"log", "events", some "at", [], .arr []⟩]

/-- An import of both, under `--force`. -/
theorem prepare_ready_two :
    (prepare oneTable true twoSources ["shop"]).1 = .ok
      [⟨"shop", "users", some "id", [], .arr []⟩, ⟨"log", "events", some "at", [], .arr []⟩] ∧
    wp (prepare oneTable true twoSources) (fun o s' => o ≠ .running ∧
      oneTable.primaryKey s' = oneTable.primaryKey ["shop"] ∧
      oneTable.dbs ["shop"] ⊆ oneTable.dbs s' ∧
      (∀ db ∈ oneTable.dbs s', db ∈ oneTable.dbs ["shop"] ∨
        ∃ source ∈ twoSources, source.db = db) ∧
      (∀ ready, o = .ok ready → ready = twoSources.map (settle (oneTable.primaryKey ["shop"])) ∧
        ∀ source ∈ twoSources, source.db ≠ "rethinkdb" ∧ source.db ∈ oneTable.dbs s' ∧
          Admits true (oneTable.primaryKey ["shop"]) source) ∧
      (∀ e, o = .error e →
        False ∨ Refused true (oneTable.primaryKey ["shop"]) twoSources e)) ["shop"] :=
  ⟨rfl, prepare_ready documented_oneTable true _ ["shop"]⟩

end RethinkDB.Import.Prepare
