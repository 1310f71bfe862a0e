import RethinkDB.IndexRebuild.Loop
import RethinkDB.Lib.Except
import RethinkDB.Utils.Selector

/-! The first two phases of `rebuild_indexes`: the tables that the selectors stand for, and the
temporary indexes that an interrupted run has left on them. -/
namespace RethinkDB.IndexRebuild
open RethinkDB.Lib Utils

/-- `db_table[1]` in a condition. -/
def HasTable (t : DbTable) : Prop := t.table.getD "" ≠ ""

instance (t : DbTable) : Decidable (HasTable t) := inferInstanceAs (Decidable (_ ≠ _))

/-- What the queries see: the rows of `table_config`, the tables of a database and the indexes of a
table, where they exist. -/
structure Catalog where
  tables : List (String × String)
  tableList : String → Option (List String)
  indexList : String → String → Option (List String)

def Catalog.drop (c : Catalog) (db table name : String) : Catalog :=
  { c with indexList := fun db' table' =>
      if db' = db ∧ table' = table then
        (c.indexList db table).map fun names => names.filter (· ≠ name)
      else c.indexList db' table' }

/-- `query` is what the server answers about something that is not there. -/
inductive PrepareExn where
  | query
  | typeError (message : String)
  deriving Repr, DecidableEq

def answer {α : Type} (x : Option α) : Except PrepareExn α :=
  match x with
  | some a => .ok a
  | none => .error .query

/-- `del db_tables[db_table]`, the index being a tuple. -/
def delItem (_ : List DbTable) (_ : DbTable) : Except PrepareExn (List DbTable) :=
  .error (.typeError "list indices must be integers or slices, not DbTable")

/-- `index[key]` of two strings. -/
def subscript (_ _ : String) : Except PrepareExn String :=
  .error (.typeError "string indices must be integers")

/-- One turn of the loop over the copy of `options.db_table`. -/
def fleshOut (c : Catalog) (dbTables : List DbTable) (t : DbTable) :
    Except PrepareExn (List DbTable) :=
  if HasTable t then .ok dbTables
  else do
    let tables ← answer (c.tableList t.db)
    delItem (dbTables ++ tables.map fun x => ⟨t.db, some x⟩) t

def fleshedOut (c : Catalog) (selectors : List DbTable) : Except PrepareExn (List DbTable) :=
  if selectors = [] then .ok (c.tables.map fun x => ⟨x.1, some x.2⟩)
  else selectors.foldlM (fleshOut c) selectors

def startsWith (index : String) : Prop := tmpIndexPrefix.toList <+: index.toList

instance (index : String) : Decidable (startsWith index) :=
  inferInstanceAs (Decidable (tmpIndexPrefix.toList <+: index.toList))

def wipeIndex (c : Catalog) (index : String) : Except PrepareExn Catalog :=
  if startsWith index then do
    let db ← subscript index "db"
    let table ← subscript index "table"
    let name ← subscript index "name"
    return c.drop db table name
  else .ok c

def wipeTable (c : Catalog) (t : DbTable) : Except PrepareExn Catalog := do
  let table ← answer t.table
  let indexes ← answer (c.indexList t.db table)
  indexes.foldlM wipeIndex c

/-- Both phases: `options.db_table` and what is left on the server. -/
def prepare (c : Catalog) (selectors : List DbTable) :
    Except PrepareExn (List DbTable × Catalog) := do
  let dbTables ← fleshedOut c selectors
  let c ← dbTables.foldlM wipeTable c
  return (dbTables, c)

/-! ### Each turn does nothing, or raises -/

theorem fleshOut_eq_ok {c : Catalog} {dbTables dbTables' : List DbTable} {t : DbTable} :
    fleshOut c dbTables t = .ok dbTables' ↔ dbTables' = dbTables ∧ HasTable t := by
  unfold fleshOut
  split_ifs with ht
  · simp [ht, eq_comm]
  · simp only [bind_eq_ok, ht, and_false, iff_false]
    intro ⟨_, _, hdel⟩
    cases hdel

theorem wipeIndex_eq_ok {c c' : Catalog} {index : String} :
    wipeIndex c index = .ok c' ↔ c' = c ∧ ¬startsWith index := by
  unfold wipeIndex
  split_ifs with hindex
  · simp only [bind_eq_ok, hindex, not_true_eq_false, and_false, iff_false]
    intro ⟨_, hsubscript, _⟩
    cases hsubscript
  · simp [hindex, eq_comm]

/-- The table is there, and no index of it has the prefix. -/
def Clean (c : Catalog) (t : DbTable) : Prop :=
  ∃ table indexes, t.table = some table ∧ c.indexList t.db table = some indexes ∧
    ∀ index ∈ indexes, ¬startsWith index

theorem answer_eq_ok {α : Type} {x : Option α} {a : α} : answer x = .ok a ↔ x = some a := by
  unfold answer
  cases x with
  | none => simp
  | some b => simp

theorem wipeTable_eq_ok {c c' : Catalog} {t : DbTable} :
    wipeTable c t = .ok c' ↔ c' = c ∧ Clean c t := by
  unfold wipeTable Clean
  simp only [bind_eq_ok, answer_eq_ok, foldlM_fixed fun _ _ => wipeIndex_eq_ok]
  constructor
  · intro ⟨table, htable, indexes, hindexes, hc, hclean⟩
    exact ⟨hc, table, indexes, htable, hindexes, hclean⟩
  · intro ⟨hc, table, indexes, htable, hindexes, hclean⟩
    exact ⟨table, htable, indexes, hindexes, hc, hclean⟩

/-- The tables a list of selectors without a database stands for. -/
def selected (c : Catalog) (selectors : List DbTable) : List DbTable :=
  if selectors = [] then c.tables.map fun x => ⟨x.1, some x.2⟩ else selectors

theorem fleshedOut_eq_ok {c : Catalog} {selectors dbTables : List DbTable} :
    fleshedOut c selectors = .ok dbTables ↔
      dbTables = selected c selectors ∧ ∀ t ∈ selectors, HasTable t := by
  unfold fleshedOut selected
  split_ifs with hselectors
  · simp [hselectors, eq_comm]
  · exact foldlM_fixed fun _ _ => fleshOut_eq_ok

theorem prepare_eq_ok {c c' : Catalog} {selectors dbTables : List DbTable} :
    prepare c selectors = .ok (dbTables, c') ↔
      dbTables = selected c selectors ∧ c' = c ∧ (∀ t ∈ selectors, HasTable t) ∧
        ∀ t ∈ selected c selectors, Clean c t := by
  unfold prepare
  simp only [bind_eq_ok, fleshedOut_eq_ok, foldlM_fixed fun _ _ => wipeTable_eq_ok]
  constructor
  · intro ⟨dbTables', ⟨hdbTables', htable⟩, c'', ⟨hc'', hclean⟩, hpair⟩
    cases hpair
    rw [hdbTables'] at hclean ⊢
    exact ⟨rfl, hc'', htable, hclean⟩
  · intro ⟨hdbTables, hc', htable, hclean⟩
    rw [hdbTables, hc']
    exact ⟨_, ⟨rfl, htable⟩, c, ⟨rfl, hclean⟩, rfl⟩

/-! ### What the phases owe the rest -/

/-- The phases end, every table of the selectors is listed and nothing else than tables, and the
temporary indexes are gone from these. -/
def Prepared (c : Catalog) (selectors : List DbTable) : Prop :=
  ∃ dbTables c', prepare c selectors = .ok (dbTables, c') ∧
    (∀ t ∈ selectors, HasTable t → t ∈ dbTables) ∧
    (∀ t ∈ selectors, ¬HasTable t → ∀ tables, c.tableList t.db = some tables →
      ∀ x ∈ tables, ⟨t.db, some x⟩ ∈ dbTables) ∧
    (∀ t ∈ dbTables, t.table ≠ none) ∧
    ∀ db table, c'.indexList db table =
      if ⟨db, some table⟩ ∈ dbTables then
        (c.indexList db table).map fun names => names.filter fun name => ¬startsWith name
      else c.indexList db table

theorem prepared_of {c : Catalog} {selectors : List DbTable} (htable : ∀ t ∈ selectors, HasTable t)
    (hclean : ∀ t ∈ selected c selectors, Clean c t) : Prepared c selectors := by
  have hprepare := prepare_eq_ok.mpr ⟨rfl, rfl, htable, hclean⟩
  refine ⟨_, _, hprepare, ?_, ?_, ?_, ?_⟩
  · intro t ht _
    have hne : selectors ≠ [] := List.ne_nil_of_mem ht
    rwa [selected, if_neg hne]
  · exact fun t ht hno => absurd (htable t ht) hno
  · intro t ht hnone
    obtain ⟨table, _, htable, _⟩ := hclean t ht
    rw [hnone] at htable
    cases htable
  · intro db table
    split_ifs with hmem
    · obtain ⟨table', indexes, htable, hindexes, hnone⟩ := hclean _ hmem
      cases htable
      have hfilter : indexes.filter (fun name => ¬startsWith name) = indexes := by
        simpa using hnone
      change c.indexList db table = _ at hindexes
      rw [hindexes, Option.map_some, hfilter]
    · rfl

/-- The phases do their work when there is none: no selector is a database, and no index on the
selected tables is temporary. -/
theorem prepared_iff {c : Catalog} {selectors : List DbTable} :
    Prepared c selectors ↔
      (∀ t ∈ selectors, HasTable t) ∧ ∀ t ∈ selected c selectors, Clean c t := by
  constructor
  · intro ⟨dbTables, c', hprepare, _⟩
    obtain ⟨-, -, htable, hclean⟩ := prepare_eq_ok.mp hprepare
    exact ⟨htable, hclean⟩
  · exact fun ⟨htable, hclean⟩ => prepared_of htable hclean

def production : Catalog where
  tables := [("production", "users")]
  tableList db := if db = "production" then some ["users"] else none
  indexList db table := if db = "production" ∧ table = "users" then some ["email"] else none

theorem unprepared_production : ¬ Prepared production [⟨"production", none⟩] := by
  intro ⟨dbTables, c', hprepare, _⟩
  obtain ⟨-, -, htable, -⟩ := prepare_eq_ok.mp hprepare
  exact absurd (htable ⟨"production", none⟩ (by simp)) (by decide)

end RethinkDB.IndexRebuild
