import Mathlib.Data.List.Infix
import Mathlib.Logic.Function.Basic
import RethinkDB.Lib.JsonText
import RethinkDB.Lib.Prog

/-! The metadata of a table on its way from `export_table` through the `.info` file back into a
table. The server is a parameter; what is relied on of its administrative queries is stated
with it. -/
namespace RethinkDB.Import
open RethinkDB.Lib Prog

/-- What the server keeps of a table besides its rows: its secondary indexes with their
functions and the function of its write hook. -/
structure TableMeta where
  primaryKey : String
  indexes : String → Option Json
  writeHook : Option Json

/-- The table `table_create` makes. -/
def TableMeta.created (primaryKey : String) : TableMeta where
  primaryKey := primaryKey
  indexes := fun _ => none
  writeHook := none

/-- `runtimeError` is what `retryQuery` makes of lost connections. -/
inductive MetaExn where
  | runtimeError (text : String)
  | reql (text : String)
  | key (name : String)
  | type
  | other (text : String)
  deriving Repr, DecidableEq

/-- The queries on one table, each under `retryQuery`, and what they do when they come back.
Other clients may do anything that leaves the metadata of this table alone. -/
structure TableAdmin where
  State : Type
  table : State → Option TableMeta
  tableCreate : Option String → Prog State MetaExn Unit
  wait : Prog State MetaExn Unit
  primaryKey : Prog State MetaExn String
  indexList : Prog State MetaExn (List String)
  indexDrop : String → Prog State MetaExn Unit
  indexCreate : String → Json → Prog State MetaExn Unit
  indexWait : List String → Prog State MetaExn Unit
  getWriteHook : Prog State MetaExn Json
  setWriteHook : Option Json → Prog State MetaExn Unit

/-- A query that came back took the table from `m` to `m'`. -/
def TableAdmin.Took (A : TableAdmin) {α : Type} (q : Prog A.State MetaExn α) (m m' : TableMeta) : Prop :=
  ∀ s, A.table s = some m → q.Yields (fun _ s' => A.table s' = some m') s

structure Documented (A : TableAdmin) : Prop where
  tableCreate : ∀ key s, A.table s = none →
    (A.tableCreate (some key)).Yields (fun _ s' => A.table s' = some (.created key)) s
  wait : ∀ m, A.Took A.wait m m
  primaryKey : ∀ m, A.Took A.primaryKey m m
  indexList : ∀ m, A.Took A.indexList m m
  indexList_exist : ∀ m s, A.table s = some m →
    A.indexList.Yields (fun names _ => ∀ name ∈ names, m.indexes name ≠ none) s
  indexCreate : ∀ m name function, A.Took (A.indexCreate name function) m
    { m with indexes := Function.update m.indexes name (some function) }
  indexWait : ∀ m names, A.Took (A.indexWait names) m m
  getWriteHook : ∀ m, A.Took A.getWriteHook m m
  setWriteHook : ∀ m function, A.Took (A.setWriteHook function) m { m with writeHook := function }

/-! ### The export -/

/-- An entry of `index_status()`. -/
structure IndexStatus where
  index : String
  function : Json
  others : List (String × Json) := []

def IndexStatus.toJson (d : IndexStatus) : Json :=
  .obj (("index", .str d.index) :: ("function", d.function) :: d.others)

/-- What `get_write_hook()` returns when there is a hook. -/
structure WriteHook where
  function : Json
  others : List (String × Json) := []

def WriteHook.toJson (h : WriteHook) : Json := .obj (("function", h.function) :: h.others)

/-- What the server answers an export about a table. -/
structure Exported where
  primaryKey : String
  info : List (String × Json)
  indexes : List IndexStatus
  hasWriteHooks : Bool
  writeHook : Option WriteHook
  keyed : info.lookup "primary_key" = some (.str primaryKey)
  unhooked : info.lookup "write_hook" = none
  distinct : (indexes.map IndexStatus.index).Nodup
  hooked : writeHook ≠ none → hasWriteHooks = true

/-- The `table_info` of `export_table`, as it is dumped into the `.info` file. -/
def tableInfo (x : Exported) : Json :=
  let info := Json.insertField x.info ("indexes", .arr (x.indexes.map IndexStatus.toJson))
  if x.hasWriteHooks then
    .obj (Json.insertField info ("write_hook", (x.writeHook.map WriteHook.toJson).getD .null))
  else .obj info

/-- The `.info` file; `dumps` is `json.dumps`. -/
def infoFile (dumps : Json → String) (x : Exported) : String := dumps (tableInfo x) ++ "\n"

/-! ### The import -/

/-- `dict.get`. -/
def get (json : Json) (name : String) : Option Json :=
  match json with
  | .obj fields => fields.lookup name
  | _ => none

/-- `json[name]` if `name in json`, which only a dict may have: a list with the string in it and a
string with that part in it take no string as an index, and the rest has no members. -/
def member (json : Json) (name : String) : Except MetaExn (Option Json) :=
  match json with
  | .obj _ => .ok (get json name)
  | .arr items =>
    if (items.any fun | .str s => s = name | _ => false) = true then .error .type else .ok none
  | .str s => if name.toList <:+: s.toList then .error .type else .ok none
  | _ => .error .type

/-- `json[name]`. -/
def item (json : Json) (name : String) : Except MetaExn Json :=
  match json with
  | .obj fields =>
    match fields.lookup name with
    | some value => .ok value
    | none => .error (.key name)
  | _ => .error .type

def string (json : Json) : Except MetaExn String :=
  match json with
  | .str s => .ok s
  | _ => .error .type

def items : Json → List Json
  | .arr items => items
  | _ => []

structure Metadata where
  primaryKey : Option String
  indexes : List Json
  writeHook : Json

/-- `parse_info_file`, or nothing where it raises; `loads` is `json.load` on a text and `indexes` is
`options.indexes is not False`. -/
def parseInfoFile (loads : String → Option Json) (indexes : Bool) (text : String) :
    Option Metadata := do
  let metadata ← loads text
  let primaryKey ← (member metadata "primary_key").toOption
  let indexList ← if indexes then (member metadata "indexes").toOption else some none
  let writeHook ← (member metadata "write_hook").toOption
  return {
    primaryKey := primaryKey.bind fun key => (string key).toOption
    indexes := (indexList.map items).getD []
    writeHook := writeHook.getD .null }

/-- The fields of a `SourceFile`, of which `primary_key` may still change. -/
structure SourceFile where
  db : String
  table : String
  primaryKey : Option String
  indexes : List Json
  writeHook : Json

/-- `SourceFile.__init__` for a file of a directory. -/
def SourceFile.ofMetadata (db table : String) (metadata : Metadata) : SourceFile where
  db := db
  table := table
  primaryKey := metadata.primaryKey
  indexes := metadata.indexes
  writeHook := if metadata.writeHook.truthy then metadata.writeHook else .arr []

/-- What reading the file comes to, batch by batch: `exit_event` may be set before a batch is
on the work queue, and opening, reading or closing the file may raise. -/
inductive Batch where
  | queued
  | exited
  | raised (e : MetaExn)
  deriving Repr, DecidableEq

structure Reader (A : TableAdmin) where
  server : A.State
  primaryKey : Option String
  errorQueue : List MetaExn := []
  warningQueue : List MetaExn := []
  exitEvent : Bool := false

namespace SourceFile
variable {A : TableAdmin}

def query {α : Type} (q : Prog A.State MetaExn α) : Prog (Reader A) MetaExn α :=
  zoom Reader.server (fun server r => { r with server := server }) q

/-- `setup_table`; the table is created under the primary key of the source. -/
def setupTable (S : SourceFile) : Prog (Reader A) MetaExn Unit := do
  query (A.tableCreate (← read Reader.primaryKey))
  query A.wait
  let primaryKey ← query A.primaryKey
  match ← read Reader.primaryKey with
  | none => modify fun r => { r with primaryKey := some primaryKey }
  | some expected =>
    raiseIf (primaryKey ≠ expected) (.runtimeError ("Error: table " ++ S.db ++ "." ++ S.table ++
      " primary key was `" ++ primaryKey ++ "` rather than the expected: " ++ expected))

/-- `except RuntimeError`: the exception becomes a warning. -/
def warn (m : Prog (Reader A) MetaExn Unit) : Prog (Reader A) MetaExn Unit :=
  handle m fun
    | .runtimeError text =>
      modify fun r => { r with warningQueue := r.warningQueue ++ [.runtimeError text] }
    | e => throw e

/-- The loop over the indexes; it returns `created_indexes`. -/
def createIndexes (existing : List String) : List Json → Prog (Reader A) MetaExn (List String)
  | [] => pure []
  | index :: indexes => do
    let name ← ofExcept (item index "index" >>= string)
    if name ∈ existing then query (A.indexDrop name) else pure ()
    let function ← ofExcept (item index "function")
    query (A.indexCreate name function)
    let created ← createIndexes existing indexes
    pure (name :: created)

/-- `restore_indexes`, its first half. -/
def restoreSecondary (S : SourceFile) : Prog (Reader A) MetaExn Unit :=
  if S.indexes ≠ [] then do
    let existing ← query A.indexList
    warn do
      let created ← createIndexes existing S.indexes
      query (A.indexWait created)
  else pure ()

/-- `restore_indexes`, its second half. -/
def restoreHook (S : SourceFile) : Prog (Reader A) MetaExn Unit :=
  if S.writeHook.truthy then do
    let _ ← query A.getWriteHook
    warn do
      query (A.setWriteHook none)
      let function ← ofExcept (item S.writeHook "function")
      query (A.setWriteHook (some function))
  else pure ()

def restoreIndexes (S : SourceFile) : Prog (Reader A) MetaExn Unit := do
  restoreSecondary S
  restoreHook S

/-- The batches of the file put on the work queue; it says whether the file came to its end. -/
def feed : List Batch → Prog (Reader A) MetaExn Bool
  | [] => pure true
  | .queued :: batches => feed batches
  | .exited :: _ => pure false
  | .raised e :: _ => throw e

/-- `read_to_queue` over `batches`: when the loop is left early the generator is dropped where
it stands. -/
def readToQueue (S : SourceFile) (batches : List Batch) : Prog (Reader A) MetaExn Unit :=
  handle (do
    setupTable S
    if ← feed batches then
      -- the end of the file
      if S.indexes ≠ [] then restoreIndexes S else pure ()
    else pure ()) fun e => do
      modify fun r => { r with errorQueue := r.errorQueue ++ [e], exitEvent := true }
      throw e

end SourceFile

/-! ### What the import leaves behind -/

structure Restored (x : Exported) (m : TableMeta) : Prop where
  primaryKey : m.primaryKey = x.primaryKey
  indexes : ∀ name function, m.indexes name = some function ↔
    ∃ d ∈ x.indexes, d.index = name ∧ d.function = function
  writeHook : m.writeHook = x.writeHook.map WriteHook.function

def putIndex (indexes : String → Option Json) (d : IndexStatus) : String → Option Json :=
  Function.update indexes d.index (some d.function)

/-- The table after some indexes have been created. -/
def TableMeta.addIndexes (m : TableMeta) (defs : List IndexStatus) : TableMeta :=
  { m with indexes := defs.foldl putIndex m.indexes }

theorem foldl_putIndex {defs : List IndexStatus} (hdistinct : (defs.map IndexStatus.index).Nodup)
    (indexes : String → Option Json) (name : String) (function : Json) :
    defs.foldl putIndex indexes name = some function ↔
      (∃ d ∈ defs, d.index = name ∧ d.function = function) ∨
        name ∉ defs.map IndexStatus.index ∧ indexes name = some function := by
  induction defs generalizing indexes with
  | nil => simp
  | cons first defs ih =>
    obtain ⟨hfirst, hdefs⟩ := List.nodup_cons.mp hdistinct
    rw [List.foldl_cons, ih hdefs]
    by_cases hname : name = first.index
    · subst hname
      have hnone : ¬∃ d ∈ defs, d.index = first.index ∧ d.function = function := by
        rintro ⟨d, hd, hindex, -⟩
        exact hfirst (List.mem_map.mpr ⟨d, hd, hindex⟩)
      simp [hnone, hfirst, putIndex]
    · simp [hname, putIndex, Ne.symm hname]

/-- The new table holds the exported metadata only when there are neither indexes nor a hook. -/
theorem restored_created (x : Exported) :
    Restored x (.created x.primaryKey) ↔ x.indexes = [] ∧ x.writeHook = none := by
  constructor
  · intro h
    constructor
    · refine List.eq_nil_iff_forall_not_mem.mpr fun d hd => ?_
      have hnone := (h.indexes d.index d.function).mpr ⟨d, hd, rfl, rfl⟩
      cases hnone
    · exact Option.map_eq_none_iff.mp h.writeHook.symm
  · rintro ⟨hindexes, hhook⟩
    exact ⟨rfl, by simp [TableMeta.created, hindexes], by simp [TableMeta.created, hhook]⟩

theorem restored_all (x : Exported) :
    Restored x { (TableMeta.created x.primaryKey).addIndexes x.indexes with
      writeHook := x.writeHook.map WriteHook.function } := by
  refine ⟨rfl, fun name function => ?_, rfl⟩
  have hfold := foldl_putIndex x.distinct (fun _ => none) name function
  have hmem : ¬(name ∉ x.indexes.map IndexStatus.index ∧ none = some function) := fun h => by
    cases h.2
  rwa [or_iff_left hmem] at hfold

/-! ### What is read from the file is what was written -/

section Files
variable {fields : List (String × Json)} {name name' : String} {value : Json}

/-- A field put into a dict is found, whether it replaces one or not. -/
theorem lookup_insertField : (Json.insertField fields (name, value)).lookup name = some value := by
  unfold Json.insertField
  by_cases hmem : name ∈ fields.map Prod.fst
  · rw [if_pos hmem]
    induction fields with
    | nil => cases hmem
    | cons field fields ih =>
      by_cases hname : field.1 = name
      · simp [hname]
      · have hbeq : (name == field.1) = false := by simp [Ne.symm hname]
        have hrest : name ∈ fields.map Prod.fst :=
          (List.mem_cons.mp hmem).resolve_left (Ne.symm hname)
        rw [List.map_cons, if_neg hname, List.lookup_cons, hbeq]
        exact ih hrest
  · have hnone : fields.lookup name = none := by
      rw [List.lookup_eq_none_iff]
      intro field hfield
      have hne : field.1 ≠ name := fun heq => hmem (List.mem_map.mpr ⟨field, hfield, heq⟩)
      simpa using Ne.symm hne
    rw [if_neg hmem, List.lookup_append, hnone]
    simp

/-- The other fields stay as they are. -/
theorem lookup_insertField_ne (hne : name' ≠ name) :
    (Json.insertField fields (name, value)).lookup name' = fields.lookup name' := by
  unfold Json.insertField
  split
  · clear * - hne
    induction fields with
    | nil => rfl
    | cons field fields ih =>
      rw [List.map_cons]
      by_cases hname : field.1 = name
      · have hbeq : (name' == field.1) = false := by simpa [hname] using hne
        rw [if_pos hname, List.lookup_cons, List.lookup_cons, hbeq]
        exact ih
      · rw [if_neg hname, List.lookup_cons, List.lookup_cons, ih]
  · have hbeq : (name' == name) = false := by simpa using hne
    simp [List.lookup_append, List.lookup_cons, hbeq]

variable {x : Exported}

theorem get_primaryKey : get (tableInfo x) "primary_key" = some (.str x.primaryKey) := by
  unfold tableInfo
  split <;> rw [get]
  · rw [lookup_insertField_ne (by decide), lookup_insertField_ne (by decide), x.keyed]
  · rw [lookup_insertField_ne (by decide), x.keyed]

theorem get_indexes :
    get (tableInfo x) "indexes" = some (.arr (x.indexes.map IndexStatus.toJson)) := by
  unfold tableInfo
  split <;> rw [get]
  · rw [lookup_insertField_ne (by decide), lookup_insertField]
  · rw [lookup_insertField]

/-- No hook and no field for a hook come to the same. -/
theorem get_writeHook : (get (tableInfo x) "write_hook").getD .null =
    (x.writeHook.map WriteHook.toJson).getD .null := by
  unfold tableInfo
  by_cases hhooks : x.hasWriteHooks = true
  · rw [if_pos hhooks, get, lookup_insertField, Option.getD_some]
  · have hnone : x.writeHook = none := by
      by_contra hsome
      exact hhooks (x.hooked hsome)
    rw [if_neg hhooks, get, lookup_insertField_ne (by decide), x.unhooked, hnone]
    rfl

theorem member_tableInfo (name : String) :
    member (tableInfo x) name = .ok (get (tableInfo x) name) := by
  unfold tableInfo
  split <;> rfl

/-- What is read from the file of a table. -/
theorem parse_infoFile {dumps : Json → String} {loads : String → Option Json}
    (hjson : loads (infoFile dumps x) = some (tableInfo x)) :
    parseInfoFile loads true (infoFile dumps x) = some {
      primaryKey := some x.primaryKey
      indexes := x.indexes.map IndexStatus.toJson
      writeHook := (x.writeHook.map WriteHook.toJson).getD .null } := by
  unfold parseInfoFile
  rw [hjson]
  simp only [Option.bind_eq_bind, Option.bind_some, if_true, member_tableInfo, Except.toOption,
    get_primaryKey, get_indexes, get_writeHook]
  rfl

end Files

/-! ### The steps of the import -/

namespace SourceFile
variable {A : TableAdmin} {α β : Type} {m m' m'' : TableMeta} {r : Reader A}

/-- Unless something has been warned of, the table stands at `m`. -/
def At (m : TableMeta) (r : Reader A) : Prop := r.warningQueue = [] → A.table r.server = some m

/-- When the step returns it has taken the table from `m` to `m'`. -/
def Takes (p : Prog (Reader A) MetaExn α) (m m' : TableMeta) : Prop :=
  ∀ r, At m r → p.Yields (fun _ r' => At m' r') r

theorem Takes.bind {p : Prog (Reader A) MetaExn α} {f : α → Prog (Reader A) MetaExn β}
    (hp : Takes p m m') (hf : ∀ a, Takes (f a) m' m'') : Takes (p >>= f) m m'' :=
  fun r hr => .bind ((hp r hr).mono fun a r' h => hf a r' h)

theorem takes_pure (a : α) : Takes (pure a : Prog (Reader A) MetaExn α) m m :=
  fun _ hr => yields_pure hr

theorem query_takes {q : Prog A.State MetaExn α} (hq : A.Took q m m') :
    Takes (query q) m m' := by
  intro r hr
  apply yields_zoom
  by_cases hwarn : r.warningQueue = []
  · exact (hq _ (hr hwarn)).mono fun _ s h _ => h
  · exact fun _ _ hnone => absurd hnone hwarn

/-- A warning is enough for the rest of the run to be no matter. -/
theorem warn_takes {p : Prog (Reader A) MetaExn Unit} (hp : Takes p m m') : Takes (warn p) m m' := by
  intro r hr
  apply yields_handle (hp r hr)
  intro e r'
  cases e with
  | runtimeError text =>
    apply yields_modify
    intro hnone
    simp at hnone
  | _ => exact yields_throw _

variable (hA : Documented A)
include hA

/-- On a table without indexes the loop only creates. -/
theorem createIndexes_takes (defs : List IndexStatus) (m : TableMeta) :
    Takes (A := A) (createIndexes [] (defs.map IndexStatus.toJson)) m (m.addIndexes defs) := by
  induction defs generalizing m with
  | nil => exact takes_pure _
  | cons d defs ih =>
    have hname : (item d.toJson "index" >>= string) = .ok d.index := rfl
    have hfunction : item d.toJson "function" = .ok d.function := rfl
    rw [List.map_cons, createIndexes, hname, hfunction]
    show Takes (query (A.indexCreate d.index d.function) >>= _) m _
    refine (query_takes (hA.indexCreate m d.index d.function)).bind fun _ => ?_
    exact (ih _).bind fun _ => takes_pure _

/-- The first half, on a new table. -/
theorem restoreSecondary_takes {S : SourceFile} {x : Exported} {key : String}
    (hindexes : S.indexes = x.indexes.map IndexStatus.toJson) (hsome : x.indexes ≠ [])
    (htable : A.table r.server = some (.created key)) :
    (restoreSecondary S).Yields
      (fun _ r' => At ((TableMeta.created key).addIndexes x.indexes) r') r := by
  have hnonempty : S.indexes ≠ [] := by simpa [hindexes] using hsome
  have hlist : (query A.indexList).Yields (fun names r' => At (.created key) r' ∧ names = []) r := by
    refine (query_takes (hA.indexList _) r fun _ => htable).and ?_
    refine yields_zoom ((hA.indexList_exist _ _ htable).mono fun names s h => ?_)
    exact List.eq_nil_iff_forall_not_mem.mpr fun name hname => h name hname rfl
  rw [restoreSecondary, if_pos hnonempty, hindexes]
  refine .bind (hlist.mono ?_)
  rintro _ r' ⟨hat, rfl⟩
  have hcreate := createIndexes_takes hA x.indexes (.created key)
  exact warn_takes (hcreate.bind fun created => query_takes (hA.indexWait _ created)) r' hat

/-- The second half. -/
theorem restoreHook_takes {S : SourceFile} {hook : Option WriteHook}
    (hhook : S.writeHook = (hook.map WriteHook.toJson).getD (.arr [])) (hm : m.writeHook = none) :
    Takes (A := A) (restoreHook S) m { m with writeHook := hook.map WriteHook.function } := by
  unfold restoreHook
  rw [hhook]
  cases hook with
  | none =>
    have hsame : { m with writeHook := (none : Option WriteHook).map WriteHook.function } = m := by
      rw [Option.map_none, ← hm]
    rw [hsame]
    exact takes_pure ()
  | some h =>
    have hfunction : item h.toJson "function" = .ok h.function := rfl
    rw [Option.map_some, Option.getD_some, hfunction, if_pos (by rfl)]
    refine (query_takes (hA.getWriteHook m)).bind fun _ => warn_takes ?_
    refine (query_takes (hA.setWriteHook m none)).bind fun _ => ?_
    exact query_takes (hA.setWriteHook { m with writeHook := none } (some h.function))

/-- A new table has its metadata restored. -/
theorem restoreIndexes_takes {S : SourceFile} {x : Exported} {key : String}
    (hindexes : S.indexes = x.indexes.map IndexStatus.toJson) (hsome : x.indexes ≠ [])
    (hhook : S.writeHook = (x.writeHook.map WriteHook.toJson).getD (.arr []))
    (htable : A.table r.server = some (.created key)) :
    (restoreIndexes S).Yields (fun _ r' =>
      At { (TableMeta.created key).addIndexes x.indexes with
        writeHook := x.writeHook.map WriteHook.function } r') r :=
  .bind ((restoreSecondary_takes hA hindexes hsome htable).mono fun _ =>
    restoreHook_takes hA hhook rfl)

/-- The table is made under the primary key of the source. -/
theorem setupTable_created (S : SourceFile) {key : String} (hkey : r.primaryKey = some key)
    (hwarn : r.warningQueue = []) (habsent : A.table r.server = none) :
    (setupTable S).Yields
      (fun _ r' => r'.warningQueue = [] ∧ A.table r'.server = some (.created key)) r := by
  have hquery : ∀ {α : Type} {q : Prog A.State MetaExn α}, A.Took q (.created key) (.created key) →
      ∀ r : Reader A, r.warningQueue = [] ∧ A.table r.server = some (.created key) →
        (query q).Yields
          (fun _ r' => r'.warningQueue = [] ∧ A.table r'.server = some (.created key)) r :=
    fun hq r hr => yields_zoom ((hq r.server hr.2).mono fun _ s h => ⟨hr.1, h⟩)
  have hcreate := hA.tableCreate key r.server habsent
  rw [← hkey] at hcreate
  refine .bind (yields_read (.bind (yields_zoom (hcreate.mono fun _ s htable => ?_))))
  refine .bind ((hquery (hA.wait _) { r with server := s } ⟨hwarn, htable⟩).mono fun _ r₁ h₁ => ?_)
  refine .bind ((hquery (hA.primaryKey _) r₁ h₁).mono fun key' r₂ h₂ => ?_)
  refine .bind (yields_read ?_)
  split
  · exact yields_modify h₂
  · exact yields_raiseIf fun _ => h₂

omit hA in
/-- The file is read to its end unless the exit event interrupts, and nothing is changed. -/
theorem feed_yields (batches : List Batch) (r : Reader A) :
    (feed batches).Yields (fun ended r' => r' = r ∧ (ended = true ↔ .exited ∉ batches)) r := by
  induction batches with
  | nil => exact yields_pure ⟨rfl, by simp⟩
  | cons batch batches ih =>
    cases batch with
    | queued => exact ih.mono fun ended r' h => ⟨h.1, by rw [h.2]; simp⟩
    | exited => exact yields_pure ⟨rfl, by simp⟩
    | raised e => exact yields_throw e

def leaves (x : Exported) (batches : List Batch) : TableMeta :=
  if .exited ∈ batches ∨ x.indexes = [] then .created x.primaryKey
  else { (TableMeta.created x.primaryKey).addIndexes x.indexes with
    writeHook := x.writeHook.map WriteHook.function }

theorem readToQueue_leaves {S : SourceFile} {x : Exported}
    (hindexes : S.indexes = x.indexes.map IndexStatus.toJson)
    (hhook : S.writeHook = (x.writeHook.map WriteHook.toJson).getD (.arr [])) (batches : List Batch)
    (hkey : r.primaryKey = some x.primaryKey) (hwarn : r.warningQueue = [])
    (habsent : A.table r.server = none) :
    (readToQueue S batches).Yields (fun _ r' => At (leaves x batches) r') r := by
  refine yields_handle (.bind ?_) fun e _ => .bind (yields_modify (yields_throw e))
  refine (setupTable_created hA S hkey hwarn habsent).mono ?_
  rintro _ r₁ ⟨hwarn₁, htable⟩
  refine .bind ((feed_yields batches r₁).mono ?_)
  rintro ended _ ⟨rfl, hended⟩
  unfold leaves
  by_cases hexited : .exited ∈ batches
  · have hleft : ¬ended = true := fun h => hended.mp h hexited
    rw [if_neg hleft, if_pos (.inl hexited)]
    exact yields_pure fun _ => htable
  · rw [if_pos (hended.mpr hexited)]
    by_cases hsome : x.indexes = []
    · have hnone : ¬S.indexes ≠ [] := by simp [hindexes, hsome]
      rw [if_neg hnone, if_pos (.inr hsome)]
      exact yields_pure fun _ => htable
    · have hnonempty : S.indexes ≠ [] := by simpa [hindexes] using hsome
      rw [if_pos hnonempty, if_neg (by simp [hexited, hsome])]
      exact restoreIndexes_takes hA hindexes hsome hhook htable

end SourceFile

/-! ### When the metadata is restored -/

open SourceFile

def SourceFile.start {A : TableAdmin} (S : SourceFile) (s : A.State) : Reader A where
  server := s
  primaryKey := S.primaryKey

theorem restored_leaves (x : Exported) (batches : List Batch) :
    Restored x (leaves x batches) ↔ (x.writeHook = none ∨ x.indexes ≠ []) ∧
      (.exited ∈ batches → x.indexes = [] ∧ x.writeHook = none) := by
  unfold leaves
  by_cases hexited : .exited ∈ batches
  · rw [if_pos (.inl hexited), restored_created]
    simp only [hexited, forall_const]
    exact ⟨fun h => ⟨.inl h.2, h⟩, And.right⟩
  · by_cases hindexes : x.indexes = []
    · rw [if_pos (.inr hindexes), restored_created]
      simp [hindexes, hexited]
    · rw [if_neg (by simp [hexited, hindexes])]
      simp [restored_all, hexited, hindexes]

/-- A table that is not there yet, imported without an error or a warning, has the exported
metadata exactly when it has an index or no hook and nothing but an empty list was still to be
restored when the reading was interrupted. -/
theorem restored_iff {A : TableAdmin} (hA : Documented A) {dumps : Json → String}
    {loads : String → Option Json} {x : Exported}
    (hjson : loads (infoFile dumps x) = some (tableInfo x)) {db table : String} {S : SourceFile}
    (hS : (parseInfoFile loads true (infoFile dumps x)).map (.ofMetadata db table) = some S)
    {s : A.State} (habsent : A.table s = none) {batches : List Batch}
    (hend : (readToQueue S batches (S.start s)).1 = .ok ())
    (hwarn : (readToQueue S batches (S.start s)).2.warningQueue = []) :
    (∃ m, A.table (readToQueue S batches (S.start s)).2.server = some m ∧ Restored x m) ↔
      (x.writeHook = none ∨ x.indexes ≠ []) ∧
        (.exited ∈ batches → x.indexes = [] ∧ x.writeHook = none) := by
  rw [parse_infoFile hjson, Option.map_some, Option.some_inj] at hS
  subst hS
  have hhook : ∀ hook : Option WriteHook,
      (if ((hook.map WriteHook.toJson).getD .null).truthy then
        (hook.map WriteHook.toJson).getD .null else .arr []) =
      (hook.map WriteHook.toJson).getD (.arr []) := by
    intro hook
    cases hook <;> rfl
  have htable := readToQueue_leaves hA (x := x) rfl (hhook x.writeHook) batches rfl rfl habsent ()
    hend hwarn
  rw [htable, ← restored_leaves]
  simp

/-! ### A table with a write hook and no index -/

/-- What a server that never fails keeps of the table. -/
structure Stored where
  primaryKey : String
  indexes : List (String × Json) := []
  writeHook : Option Json := none

def Stored.toMeta (m : Stored) : TableMeta where
  primaryKey := m.primaryKey
  indexes := fun name => m.indexes.lookup name
  writeHook := m.writeHook

def memory : TableAdmin where
  State := Option Stored
  table := Option.map Stored.toMeta
  tableCreate key := modify fun s => some (s.getD { primaryKey := key.getD "id" })
  wait := pure ()
  primaryKey := read fun s => (s.map Stored.primaryKey).getD ""
  indexList := read fun s => ((s.map Stored.indexes).getD []).map Prod.fst
  indexDrop name := modify (Option.map fun m =>
    { m with indexes := m.indexes.filter fun index => index.1 ≠ name })
  indexCreate name function := modify (Option.map fun m =>
    { m with indexes := (name, function) :: m.indexes })
  indexWait _ := pure ()
  getWriteHook := read fun s => (s.bind Stored.writeHook).getD .null
  setWriteHook function := modify (Option.map fun m => { m with writeHook := function })

theorem memory_documented : Documented memory where
  tableCreate key s habsent := by
    cases s with
    | none => exact yields_modify rfl
    | some m => cases habsent
  wait m s hs := yields_pure hs
  primaryKey m s hs := yields_read hs
  indexList m s hs := yields_read hs
  indexList_exist m s hs := by
    obtain ⟨stored, rfl, rfl⟩ := Option.map_eq_some_iff.mp hs
    refine yields_read fun name hname hnone => ?_
    obtain ⟨index, hindex, rfl⟩ := List.mem_map.mp hname
    have hne := List.lookup_eq_none_iff.mp hnone index hindex
    simp at hne
  indexCreate m name function s hs := by
    obtain ⟨stored, rfl, rfl⟩ := Option.map_eq_some_iff.mp hs
    refine yields_modify (congrArg some ?_)
    have hindexes : (fun name' => ((name, function) :: stored.indexes).lookup name') =
        Function.update (fun name' => stored.indexes.lookup name') name (some function) := by
      funext name'
      by_cases hname : name' = name
      · simp [hname]
      · have hbeq : (name' == name) = false := by simpa using hname
        simp [List.lookup_cons, hname, hbeq]
    exact congrArg (fun indexes => TableMeta.mk stored.primaryKey indexes stored.writeHook) hindexes
  indexWait m names s hs := yields_pure hs
  getWriteHook m s hs := yields_read hs
  setWriteHook m function s hs := by
    obtain ⟨stored, rfl, rfl⟩ := Option.map_eq_some_iff.mp hs
    exact yields_modify rfl

def hooked : Exported where
  primaryKey := "id"
  info := [("primary_key", .str "id")]
  indexes := []
  hasWriteHooks := true
  writeHook := some { function := .str "f" }
  keyed := rfl
  unhooked := rfl
  distinct := List.nodup_nil
  hooked := fun _ => rfl

/-- What `json.dumps` writes of it. -/
def hookedText : String :=
  "\x7b\"primary_key\": \"id\", \"indexes\": [], \"write_hook\": \x7b\"function\": \"f\"\x7d\x7d"

/-- `json.load` on the file of that table. -/
def loadsHooked (text : String) : Option Json :=
  if text = infoFile (fun _ => hookedText) hooked then some (tableInfo hooked) else none

theorem loads_hookedText :
    loadsHooked (infoFile (fun _ => hookedText) hooked) = some (tableInfo hooked) := if_pos rfl

def hookedSource : SourceFile where
  db := "db"
  table := "t"
  primaryKey := some "id"
  indexes := []
  writeHook := .obj [("function", .str "f")]

theorem parse_hookedText :
    (parseInfoFile loadsHooked true (infoFile (fun _ => hookedText) hooked)).map
      (.ofMetadata "db" "t") = some hookedSource := by
  rw [parse_infoFile loads_hookedText]
  rfl

theorem restored_iff_hooked :
    (∃ m, memory.table (readToQueue hookedSource [.queued]
        (hookedSource.start (A := memory) none)).2.server = some m ∧ Restored hooked m) ↔
      (hooked.writeHook = none ∨ hooked.indexes ≠ []) ∧
        (.exited ∈ [Batch.queued] → hooked.indexes = [] ∧ hooked.writeHook = none) :=
  restored_iff memory_documented loads_hookedText parse_hookedText rfl rfl rfl

/-- The import ends without an error or a warning, and the table has no write hook. -/
theorem hooked_not_restored :
    (readToQueue hookedSource [.queued] (hookedSource.start (A := memory) none)).1 = .ok () ∧
      (readToQueue hookedSource [.queued]
        (hookedSource.start (A := memory) none)).2.errorQueue = [] ∧
      (readToQueue hookedSource [.queued]
        (hookedSource.start (A := memory) none)).2.warningQueue = [] ∧
      ¬∃ m, memory.table (readToQueue hookedSource [.queued]
        (hookedSource.start (A := memory) none)).2.server = some m ∧ Restored hooked m := by
  refine ⟨rfl, rfl, rfl, ?_⟩
  rintro ⟨m, hm, hrestored⟩
  have hnone : m = .created "id" := (Option.some.inj hm).symm
  have hhook := hrestored.writeHook
  rw [hnone] at hhook
  cases hhook

end RethinkDB.Import
