import RethinkDB.Ast.Term
import RethinkDB.Lib.Prog

/-! GROUPED_DATA objects as dicts, after `rethinkdb/ast.py`. -/
namespace RethinkDB.Ast
open RethinkDB.Lib

/-- What `recursively_make_hashable` returns. The items of a frozenset are pairs. -/
inductive Hashable where
  | scalar (val : Scalar)
  | bytes (data : Bytes)
  | tuple (items : List Hashable)
  | frozenset (items : List (String × Hashable))
  deriving Repr

/-- `==`: a Boolean is a number. -/
def Scalar.eq : Scalar → Scalar → Bool
  | none, none => true
  | str s, str s' => s = s'
  | bool b, bool b' => b = b'
  | bool b, int n => n = b.toNat
  | int n, bool b => n = b.toNat
  | int n, int n' => n = n'
  | float (.finite x), bool b => x = b.toNat
  | bool b, float (.finite x) => x = b.toNat
  | float (.finite x), int n => x = n
  | int n, float (.finite x) => x = n
  | float (.finite x), float (.finite x') => x = x'
  | float (.infinity positive), float (.infinity positive') => positive = positive'
  | _, _ => false

mutual

/-- `==`. -/
def Hashable.eq : Hashable → Hashable → Bool
  | .scalar val, .scalar val' => val.eq val'
  | .bytes data, .bytes data' => data = data'
  | .tuple items, .tuple items' => eqItems items items'
  | .frozenset items, .frozenset items' => items.length = items'.length && issubset items items'
  | _, _ => false

def eqItems : List Hashable → List Hashable → Bool
  | [], [] => true
  | item :: items, item' :: items' => item.eq item' && eqItems items items'
  | _, _ => false

def issubset : List (String × Hashable) → List (String × Hashable) → Bool
  | [], _ => true
  | (key, item) :: items, items' =>
    items'.any (fun item' => key = item'.1 && item.eq item'.2) && issubset items items'

end

def frozenset (items : List (String × Hashable)) : Hashable :=
  .frozenset (items.foldl
    (fun set item =>
      if set.any fun item' => item'.1 = item.1 && item'.2.eq item.2 then set else set ++ [item]) [])

mutual

def recursivelyMakeHashable : Value → Hashable
  | .list items => .tuple (hashableItems items)
  | .dict items => frozenset (hashableFields items)
  | .scalar val => .scalar val
  | .bytes data => .bytes data

def hashableItems : List Value → List Hashable
  | [] => []
  | item :: items => recursivelyMakeHashable item :: hashableItems items

def hashableFields : List (String × Value) → List (String × Hashable)
  | [] => []
  | (key, item) :: items => (key, recursivelyMakeHashable item) :: hashableFields items

end

abbrev Dict := List (Hashable × Value)

namespace Dict

/-- `d[key] = val`. -/
def insert : Dict → Hashable → Value → Dict
  | [], key, val => [(key, val)]
  | (key', val') :: d, key, val =>
    if key'.eq key then (key', val) :: d else (key', val') :: insert d key val

def ofPairs (pairs : List (Hashable × Value)) : Dict := pairs.foldl (fun d p => insert d p.1 p.2) []

/-- `d.get(key)`. -/
def get (d : Dict) (key : Hashable) : Option Value := (d.find? fun p => p.1.eq key).map Prod.snd

end Dict

/-- `missingData` is the `ReqlDriverError` "pseudo-type GROUPED_DATA object {obj} does not have the
expected field "data".". -/
inductive GroupExn where
  | missingData (obj : List (String × Value))
  | type | value
  deriving Repr

def iterate : Value → Except GroupExn (List Value)
  | .list items => .ok items
  | .dict items => .ok (items.map fun item => .scalar (.str item.1))
  | .bytes data => .ok (data.map fun b => .scalar (.int b.toNat))
  | .scalar (.str s) => .ok (s.toList.map fun c => .scalar (.str (.ofList [c])))
  | .scalar _ => .error .type

def unpack (group : Value) : Except GroupExn (Value × Value) := do
  match ← iterate group with
  | [key, val] => return (key, val)
  | _ => .error .value

def convertGroupedData (obj : List (String × Value)) : Except GroupExn Dict :=
  match obj.lookup "data" with
  | none => .error (.missingData obj)
  | some data => do
    let groups ← (← iterate data).mapM unpack
    return .ofPairs (groups.map fun group => (recursivelyMakeHashable group.1, group.2))

/-! ### JSON keys -/

/-- Values of JSON texts, without fractions. -/
inductive Value.Key : Value → Prop where
  | none : Key (.scalar .none)
  | bool (b : Bool) : Key (.scalar (.bool b))
  | int (n : ℤ) : Key (.scalar (.int n))
  | str (s : String) : Key (.scalar (.str s))
  | list {items : List Value} (hitems : ∀ item ∈ items, Key item) : Key (.list items)
  | dict {items : List (String × Value)} (hnodup : (items.map Prod.fst).Nodup)
      (hitems : ∀ item ∈ items, Key item.2) : Key (.dict items)

mutual

/-- Equality of JSON values; objects have no order. -/
def Value.same : Value → Value → Bool
  | .scalar val, .scalar val' => val = val'
  | .bytes data, .bytes data' => data = data'
  | .list items, .list items' => sameItems items items'
  | .dict items, .dict items' => items.length = items'.length && sameFields items items'
  | _, _ => false

def sameItems : List Value → List Value → Bool
  | [], [] => true
  | item :: items, item' :: items' => item.same item' && sameItems items items'
  | _, _ => false

def sameFields : List (String × Value) → List (String × Value) → Bool
  | [], _ => true
  | (key, item) :: items, items' =>
    items'.any (fun item' => key = item'.1 && item.same item'.2) && sameFields items items'

end

def Scalar.unify : Scalar → Scalar
  | bool b => int b.toNat
  | val => val

mutual

/-- The value with 1 for `true` and 0 for `false`. -/
def Value.unify : Value → Value
  | .scalar val => .scalar val.unify
  | .bytes data => .bytes data
  | .list items => .list (unifyItems items)
  | .dict items => .dict (unifyFields items)

def unifyItems : List Value → List Value
  | [] => []
  | item :: items => item.unify :: unifyItems items

def unifyFields : List (String × Value) → List (String × Value)
  | [] => []
  | (key, item) :: items => (key, item.unify) :: unifyFields items

end

theorem hashableItems_eq_map (items : List Value) :
    hashableItems items = items.map recursivelyMakeHashable := by
  induction items with
  | nil => rfl
  | cons item items ih => rw [hashableItems, ih, List.map_cons]

theorem hashableFields_eq_map (items : List (String × Value)) :
    hashableFields items = items.map fun item => (item.1, recursivelyMakeHashable item.2) := by
  induction items with
  | nil => rfl
  | cons item items ih => rw [hashableFields, ih, List.map_cons]

theorem unifyItems_eq_map (items : List Value) : unifyItems items = items.map Value.unify := by
  induction items with
  | nil => rfl
  | cons item items ih => rw [unifyItems, ih, List.map_cons]

theorem unifyFields_eq_map (items : List (String × Value)) :
    unifyFields items = items.map fun item => (item.1, item.2.unify) := by
  induction items with
  | nil => rfl
  | cons item items ih => rw [unifyFields, ih, List.map_cons]

/-- Items of different keys all stay in a frozenset. -/
theorem frozenset_of_nodup {items : List (String × Hashable)} (h : (items.map Prod.fst).Nodup) :
    frozenset items = .frozenset items := by
  have hfold : ∀ items set : List (String × Hashable), ((set ++ items).map Prod.fst).Nodup →
      items.foldl
        (fun set item =>
          if set.any fun item' => item'.1 = item.1 && item'.2.eq item.2 then set else set ++ [item])
        set = set ++ items := by
    intro items
    induction items with
    | nil => intro set _; exact (List.append_nil set).symm
    | cons item items ih =>
      intro set hset
      have hnew : (set.any fun item' => item'.1 = item.1 && item'.2.eq item.2) = false := by
        rw [List.any_eq_false]
        intro item' hitem'
        rw [List.map_append, List.nodup_append'] at hset
        have hne : item'.1 ≠ item.1 := fun heq =>
          hset.2.2 (List.mem_map_of_mem hitem') (by simp [heq])
        simp [hne]
      rw [List.foldl_cons, hnew, if_neg (by simp), ih (set ++ [item]) (by simpa using hset)]
      simp
  unfold frozenset
  rw [hfold items [] h, List.nil_append]

theorem recursivelyMakeHashable_dict {items : List (String × Value)}
    (h : (items.map Prod.fst).Nodup) :
    recursivelyMakeHashable (.dict items) =
      .frozenset (items.map fun item => (item.1, recursivelyMakeHashable item.2)) := by
  have hkeys : ((items.map fun item => (item.1, recursivelyMakeHashable item.2)).map Prod.fst).Nodup := by
    rwa [List.map_map]
  rw [recursivelyMakeHashable, hashableFields_eq_map, frozenset_of_nodup hkeys]

/-! ### Hashable keys are equal when the keys are, up to Booleans -/

theorem eqItems_map (items items' : List Value)
    (h : ∀ item ∈ items, ∀ item' ∈ items',
      (recursivelyMakeHashable item).eq (recursivelyMakeHashable item') =
        item.unify.same item'.unify) :
    eqItems (items.map recursivelyMakeHashable) (items'.map recursivelyMakeHashable) =
      sameItems (items.map Value.unify) (items'.map Value.unify) := by
  induction items generalizing items' with
  | nil =>
    cases items' with
    | nil => rfl
    | cons item' items' => rfl
  | cons item items ih =>
    cases items' with
    | nil => rfl
    | cons item' items' =>
      have hrest := ih items' fun a ha b hb => h a (by simp [ha]) b (by simp [hb])
      simp only [List.map_cons, eqItems, sameItems, h item (by simp) item' (by simp), hrest]

theorem issubset_map {items items' : List (String × Value)}
    (h : ∀ item ∈ items, ∀ item' ∈ items',
      (recursivelyMakeHashable item.2).eq (recursivelyMakeHashable item'.2) =
        item.2.unify.same item'.2.unify) :
    issubset (items.map fun item => (item.1, recursivelyMakeHashable item.2))
        (items'.map fun item => (item.1, recursivelyMakeHashable item.2)) =
      sameFields (items.map fun item => (item.1, item.2.unify))
        (items'.map fun item => (item.1, item.2.unify)) := by
  induction items with
  | nil => rfl
  | cons item items ih =>
    have hrest := ih fun a ha b hb => h a (by simp [ha]) b hb
    simp only [List.map_cons, issubset, sameFields, hrest, List.any_map]
    congr 1
    rw [Bool.eq_iff_iff, List.any_eq_true, List.any_eq_true]
    apply exists_congr
    intro item'
    apply and_congr_right
    intro hitem'
    simp only [Function.comp_apply, h item (by simp) item' hitem']

theorem eq_bool (b b' : Bool) :
    (Scalar.bool b).eq (.bool b') = decide ((Scalar.bool b).unify = (Scalar.bool b').unify) := by
  cases b with
  | true => cases b' with
    | true => rfl
    | false => rfl
  | false => cases b' with
    | true => rfl
    | false => rfl

theorem eq_hashable {key key' : Value} (hkey : key.Key) (hkey' : key'.Key) :
    (recursivelyMakeHashable key).eq (recursivelyMakeHashable key') =
      key.unify.same key'.unify := by
  induction hkey generalizing key' with
  | list hitems ih =>
    cases hkey' with
    | list hitems' =>
      simp only [recursivelyMakeHashable, hashableItems_eq_map, Hashable.eq, Value.unify,
        unifyItems_eq_map, Value.same]
      exact eqItems_map _ _ fun item hitem item' hitem' => ih item hitem (hitems' item' hitem')
    | dict hnodup' hitems' => rw [recursivelyMakeHashable_dict hnodup']; rfl
    | _ => rfl
  | dict hnodup hitems ih =>
    cases hkey' with
    | dict hnodup' hitems' =>
      simp only [recursivelyMakeHashable_dict hnodup, recursivelyMakeHashable_dict hnodup',
        Hashable.eq, Value.unify, unifyFields_eq_map, Value.same, List.length_map]
      rw [issubset_map fun item hitem item' hitem' => ih item hitem (hitems' item' hitem')]
    | _ => rw [recursivelyMakeHashable_dict hnodup]; rfl
  | bool b =>
    cases hkey' with
    | bool b' => exact eq_bool b b'
    | dict hnodup' hitems' => rw [recursivelyMakeHashable_dict hnodup']; rfl
    | int n =>
      simp only [recursivelyMakeHashable, Hashable.eq, Scalar.eq, Value.unify, Scalar.unify,
        Value.same, Scalar.int.injEq, eq_comm]
    | _ => rfl
  | _ =>
    cases hkey' with
    | dict hnodup' hitems' => rw [recursivelyMakeHashable_dict hnodup']; rfl
    | list hitems' => rfl
    | _ => simp [recursivelyMakeHashable, Hashable.eq, Scalar.eq, Value.unify, Scalar.unify, Value.same]

theorem eqItems_self {items : List Hashable} (h : ∀ item ∈ items, item.eq item = true) :
    eqItems items items = true := by
  induction items with
  | nil => rfl
  | cons item items ih =>
    rw [eqItems, h item (by simp), ih fun item hitem => h item (by simp [hitem])]
    rfl

theorem issubset_of_subset {items items' : List (String × Hashable)}
    (h : ∀ item ∈ items, item.2.eq item.2 = true) (hsub : ∀ item ∈ items, item ∈ items') :
    issubset items items' = true := by
  induction items with
  | nil => rfl
  | cons item items ih =>
    have hmem : (items'.any fun item' => item.1 = item'.1 && item.2.eq item'.2) = true :=
      List.any_eq_true.mpr ⟨item, hsub item (by simp), by simp [h item (by simp)]⟩
    rw [issubset, hmem, ih (fun a ha => h a (by simp [ha])) fun a ha => hsub a (by simp [ha])]
    rfl

theorem eq_self {key : Value} (hkey : key.Key) :
    (recursivelyMakeHashable key).eq (recursivelyMakeHashable key) = true := by
  induction hkey with
  | list hitems ih =>
    simp only [recursivelyMakeHashable, hashableItems_eq_map, Hashable.eq]
    apply eqItems_self
    simpa using ih
  | dict hnodup hitems ih =>
    simp only [recursivelyMakeHashable_dict hnodup, Hashable.eq, decide_true, Bool.true_and]
    apply issubset_of_subset
    · exact List.forall_mem_map.mpr ih
    · exact fun _ h => h
  | _ => simp [recursivelyMakeHashable, Hashable.eq, Scalar.eq]

/-! ### Dicts -/

namespace Dict

theorem insert_of_new {d : Dict} {key : Hashable} (val : Value)
    (h : ∀ p ∈ d, p.1.eq key = false) : insert d key val = d ++ [(key, val)] := by
  induction d with
  | nil => rfl
  | cons p d ih =>
    rw [insert, h p (by simp), if_neg (by simp), ih fun p hp => h p (by simp [hp])]
    rfl

theorem ofPairs_of_pairwise {pairs : Dict} (h : pairs.Pairwise fun p q => p.1.eq q.1 = false) :
    ofPairs pairs = pairs := by
  have hfold : ∀ (pairs d : Dict), (d ++ pairs).Pairwise (fun p q => p.1.eq q.1 = false) →
      pairs.foldl (fun d p => insert d p.1 p.2) d = d ++ pairs := by
    intro pairs
    induction pairs with
    | nil => intro d _; exact (List.append_nil d).symm
    | cons p pairs ih =>
      intro d hd
      have hnew : ∀ q ∈ d, q.1.eq p.1 = false := fun q hq =>
        (List.pairwise_append.mp hd).2.2 q hq p (by simp)
      rw [List.foldl_cons, insert_of_new p.2 hnew, ih _ (by simpa using hd), List.append_assoc]
      rfl
  exact hfold pairs [] h

theorem get_of_pairwise {d : Dict} (h : d.Pairwise fun p q => p.1.eq q.1 = false)
    {p : Hashable × Value} (hp : p ∈ d) (hself : p.1.eq p.1 = true) : get d p.1 = some p.2 := by
  induction d with
  | nil => cases hp
  | cons q d ih =>
    rw [List.pairwise_cons] at h
    cases List.mem_cons.mp hp with
    | inl heq => simp [get, ← heq, hself]
    | inr hp =>
      have hrest := ih h.2 hp
      unfold get at hrest ⊢
      rwa [List.find?_cons_of_neg (by simp [h.1 p hp])]

end Dict

theorem mapM_unpack (groups : List (Value × Value)) :
    (groups.map fun group => Value.list [group.1, group.2]).mapM unpack = .ok groups := by
  induction groups with
  | nil => rfl
  | cons group groups ih =>
    rw [List.map_cons, List.mapM_cons, ih]
    rfl

/-- `groups` is what `obj` holds. -/
def Holds (obj : List (String × Value)) (groups : List (Value × Value)) : Prop :=
  obj.lookup "data" = some (.list (groups.map fun group => .list [group.1, group.2])) ∧
    ∀ group ∈ groups, group.1.Key

/-- Every group of `groups` is in the dict, under its key. -/
def Kept (obj : List (String × Value)) (groups : List (Value × Value)) : Prop :=
  ∃ d, convertGroupedData obj = .ok d ∧ d.length = groups.length ∧
    ∀ group ∈ groups, d.get (recursivelyMakeHashable group.1) = some group.2

/-- Groups are kept when their keys differ after `true` and `false` became 1 and 0. -/
theorem groups_kept {obj : List (String × Value)} {groups : List (Value × Value)}
    (hobj : Holds obj groups)
    (hdistinct : groups.Pairwise fun g h => g.1.unify.same h.1.unify = false) : Kept obj groups := by
  let entry : Value × Value → Hashable × Value := fun g => (recursivelyMakeHashable g.1, g.2)
  have hpairwise : (groups.map entry).Pairwise fun p q => p.1.eq q.1 = false := by
    rw [List.pairwise_map]
    apply hdistinct.imp_of_mem
    intro g h hg hh hdiff
    rw [eq_hashable (hobj.2 g hg) (hobj.2 h hh)]
    exact hdiff
  have hdict : convertGroupedData obj = .ok (groups.map entry) := by
    unfold convertGroupedData
    rw [hobj.1]
    apply bind_eq_ok.mpr
    refine ⟨_, rfl, bind_eq_ok.mpr ⟨groups, mapM_unpack groups, ?_⟩⟩
    exact congrArg Except.ok (Dict.ofPairs_of_pairwise hpairwise)
  refine ⟨groups.map entry, hdict, List.length_map _, fun g hg => ?_⟩
  exact Dict.get_of_pairwise hpairwise (List.mem_map_of_mem hg) (eq_self (hobj.2 g hg))

def grouped (key key' : Value) : List (String × Value) :=
  [("$reql_type$", .scalar (.str "GROUPED_DATA")),
    ("data", .list [.list [key, .scalar (.int 5)], .list [key', .scalar (.int 7)]])]

theorem groups_kept_nested :
    Kept (grouped (.list [.scalar (.bool true)]) (.list [.scalar (.int 0)]))
      [(.list [.scalar (.bool true)], .scalar (.int 5)),
        (.list [.scalar (.int 0)], .scalar (.int 7))] := by
  apply groups_kept
  · constructor
    · rfl
    · simp [Value.Key.list, Value.Key.bool, Value.Key.int]
  · rw [List.pairwise_pair]
    rfl

theorem groups_lost :
    Holds (grouped (.scalar (.bool true)) (.scalar (.int 1)))
        [(.scalar (.bool true), .scalar (.int 5)), (.scalar (.int 1), .scalar (.int 7))] ∧
      (Value.scalar (.bool true)).same (.scalar (.int 1)) = false ∧
      ¬ Kept (grouped (.scalar (.bool true)) (.scalar (.int 1)))
        [(.scalar (.bool true), .scalar (.int 5)), (.scalar (.int 1), .scalar (.int 7))] := by
  have hdict : convertGroupedData (grouped (.scalar (.bool true)) (.scalar (.int 1))) =
      .ok [(.scalar (.bool true), .scalar (.int 7))] := rfl
  constructor
  · constructor
    · rfl
    · simp [Value.Key.bool, Value.Key.int]
  constructor
  · rfl
  · intro ⟨d, hd, hlength, _⟩
    rw [← Except.ok.inj (hdict.symm.trans hd)] at hlength
    exact absurd hlength (by decide)

end RethinkDB.Ast
