import Mathlib.Data.List.Basic

/-! The `DB` and `DB.TABLE` arguments of `rethinkdb/utils_common.py`. -/
namespace RethinkDB.Utils

/-- A database where there is no table. -/
structure DbTable where
  db : String
  table : Option String
  deriving Repr, DecidableEq

/-- What a list of them stands for; without any there is no filter. -/
def Selects (selectors : List DbTable) (db table : String) : Prop :=
  selectors = [] ∨ ⟨db, some table⟩ ∈ selectors ∨ ⟨db, none⟩ ∈ selectors

instance (selectors : List DbTable) (db table : String) : Decidable (Selects selectors db table) :=
  inferInstanceAs (Decidable (_ ∨ _ ∨ _))

end RethinkDB.Utils
