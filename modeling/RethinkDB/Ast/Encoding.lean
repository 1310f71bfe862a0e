import RethinkDB.Ast.Decoder
import RethinkDB.Lib.Prog

/-! Values come back from their wire form, and `expr` takes exactly those of bounded depth. -/
namespace RethinkDB.Ast
open RethinkDB.Lib

/-- Scalars but floats, bytes, lists, and dicts that are no pseudo-type. -/
inductive Value.Plain : Value → Prop where
  | none : Plain (.scalar .none)
  | bool (b : Bool) : Plain (.scalar (.bool b))
  | int (n : ℤ) : Plain (.scalar (.int n))
  | str (s : String) : Plain (.scalar (.str s))
  | bytes (data : Bytes) : Plain (.bytes data)
  | list {items : List Value} (hitems : ∀ item ∈ items, Plain item) : Plain (.list items)
  | dict {items : List (String × Value)} (hnodup : (items.map Prod.fst).Nodup)
      (htype : "$reql_type$" ∉ items.map Prod.fst) (hitems : ∀ item ∈ items, Plain item.2) :
      Plain (.dict items)

mutual

def Value.depth : Value → ℕ
  | .scalar _ | .bytes _ => 1
  | .list items => itemsDepth items + 1
  | .dict items => fieldsDepth items + 1

def itemsDepth : List Value → ℕ
  | [] => 0
  | item :: items => max item.depth (itemsDepth items)

def fieldsDepth : List (String × Value) → ℕ
  | [] => 0
  | (_, item) :: items => max item.depth (fieldsDepth items)

end

theorem itemsDepth_le {items : List Value} {m : ℕ} :
    itemsDepth items ≤ m ↔ ∀ item ∈ items, item.depth ≤ m := by
  induction items with
  | nil => simp [itemsDepth]
  | cons item items ih => simp [itemsDepth, ih]

theorem fieldsDepth_le {items : List (String × Value)} {m : ℕ} :
    fieldsDepth items ≤ m ↔ ∀ item ∈ items, item.2.depth ≤ m := by
  induction items with
  | nil => simp [fieldsDepth]
  | cons item items ih => simp [fieldsDepth, ih]

/-! ### What `expr` returns -/

variable {n : ℤ}

theorem exprItems_eq_ok {items : List Value} {args : List Term} :
    exprItems items n = .ok args ↔ List.Forall₂ (fun item arg => expr item n = .ok arg) items args := by
  induction items generalizing args with
  | nil =>
    rw [exprItems, List.forall₂_nil_left_iff]
    exact ⟨fun h => (Except.ok.inj h).symm, fun h => congrArg _ h.symm⟩
  | cons item items ih =>
    rw [exprItems, List.forall₂_cons_left_iff]
    simp only [bind_eq_ok, ih]
    constructor
    · rintro ⟨arg, harg, args, hargs, ⟨⟩⟩
      exact ⟨arg, args, harg, hargs, rfl⟩
    · rintro ⟨arg, args, harg, hargs, rfl⟩
      exact ⟨arg, harg, args, hargs, rfl⟩

theorem exprFields_eq_ok {items : List (String × Value)} {optargs : List (String × Term)} :
    exprFields items n = .ok optargs ↔
      List.Forall₂ (fun item optarg => item.1 = optarg.1 ∧ expr item.2 n = .ok optarg.2) items
        optargs := by
  induction items generalizing optargs with
  | nil =>
    rw [exprFields, List.forall₂_nil_left_iff]
    exact ⟨fun h => (Except.ok.inj h).symm, fun h => congrArg _ h.symm⟩
  | cons item items ih =>
    rw [exprFields, List.forall₂_cons_left_iff]
    simp only [bind_eq_ok, ih]
    constructor
    · rintro ⟨arg, harg, args, hargs, ⟨⟩⟩
      exact ⟨(item.1, arg), args, ⟨rfl, harg⟩, hargs, rfl⟩
    · rintro ⟨⟨key, arg⟩, args, ⟨rfl, harg⟩, hargs, rfl⟩
      exact ⟨arg, harg, args, hargs, rfl⟩

theorem exists_forall₂ {α β : Type} {r : α → β → Prop} {xs : List α} :
    (∃ ys, List.Forall₂ r xs ys) ↔ ∀ x ∈ xs, ∃ y, r x y := by
  induction xs with
  | nil => simp
  | cons x xs ih =>
    rw [List.forall_mem_cons, ← ih]
    constructor
    · rintro ⟨ys, hys⟩
      cases hys with
      | cons hy hys => exact ⟨⟨_, hy⟩, _, hys⟩
    · rintro ⟨⟨y, hy⟩, ys, hys⟩
      exact ⟨y :: ys, .cons hy hys⟩

theorem forall₂_of_mem {α β : Type} {r r' : α → β → Prop} {xs : List α} {ys : List β}
    (h : List.Forall₂ r xs ys) (hr : ∀ x ∈ xs, ∀ y, r x y → r' x y) : List.Forall₂ r' xs ys := by
  induction h with
  | nil => exact .nil
  | cons h _ ih => exact .cons (hr _ (by simp) _ h) (ih fun x hx => hr x (by simp [hx]))

theorem pos_of_expr {val : Value} {term : Term} (h : expr val n = .ok term) : 0 < n := by
  by_contra hn
  rw [expr.eq_def, if_pos (by omega)] at h
  cases h

theorem expr_scalar (hn : 0 < n) (data : Scalar) : expr (.scalar data) n = .ok (.datum data) := by
  rw [expr, if_neg (by omega)]

theorem expr_bytes (hn : 0 < n) (data : Bytes) :
    expr (.bytes data) n = .ok (.binary (.b64encode data)) := by
  rw [expr, if_neg (by omega)]

theorem expr_list_eq_ok {items : List Value} {term : Term} :
    expr (.list items) n = .ok term ↔
      0 < n ∧ ∃ args, exprItems items (n - 1) = .ok args ∧ .makeArray args = term := by
  rw [← map_eq_ok]
  refine ⟨fun h => ?_, fun ⟨hn, h⟩ => ?_⟩
  · have hn := pos_of_expr h
    rw [expr, if_neg (by omega)] at h
    exact ⟨hn, h⟩
  · rw [expr, if_neg (by omega), h]

theorem expr_dict_eq_ok {items : List (String × Value)} {term : Term} :
    expr (.dict items) n = .ok term ↔
      0 < n ∧ ∃ optargs, exprFields items (n - 1) = .ok optargs ∧ .makeObj optargs = term := by
  rw [← map_eq_ok]
  refine ⟨fun h => ?_, fun ⟨hn, h⟩ => ?_⟩
  · have hn := pos_of_expr h
    rw [expr, if_neg (by omega)] at h
    exact ⟨hn, h⟩
  · rw [expr, if_neg (by omega), h]

/-- Of scalars and bytes the depth is 1. -/
theorem leaf_ok_iff {val : Value} {term : Term} (hdepth : val.depth = 1)
    (hok : 0 < n → expr val n = .ok term) :
    (∃ term, expr val n = .ok term) ↔ (val.depth : ℤ) ≤ n := by
  rw [hdepth]
  constructor
  · rintro ⟨_, h⟩
    have := pos_of_expr h
    omega
  · intro hn
    exact ⟨term, hok (by omega)⟩

theorem list_ok_iff {items : List Value} (ih : ∀ item ∈ items, ∀ {n : ℤ},
    (∃ term, expr item n = .ok term) ↔ (item.depth : ℤ) ≤ n) :
    (∃ term, expr (.list items) n = .ok term) ↔ ((Value.list items).depth : ℤ) ≤ n := by
  have hitems : (∃ args, exprItems items (n - 1) = .ok args) ↔
      ∀ item ∈ items, (item.depth : ℤ) ≤ n - 1 := by
    simp only [exprItems_eq_ok, exists_forall₂]
    exact forall₂_congr fun item hitem => ih item hitem
  have hlist : (∃ term, expr (.list items) n = .ok term) ↔
      0 < n ∧ ∃ args, exprItems items (n - 1) = .ok args := by
    simp only [expr_list_eq_ok]
    exact ⟨fun ⟨_, hn, args, hargs, _⟩ => ⟨hn, args, hargs⟩,
      fun ⟨hn, args, hargs⟩ => ⟨_, hn, args, hargs, rfl⟩⟩
  rw [hlist, hitems, Value.depth]
  constructor
  · rintro ⟨hn, h⟩
    have hle : itemsDepth items ≤ (n - 1).toNat := itemsDepth_le.mpr fun item hitem => by
      have := h item hitem
      omega
    omega
  · intro h
    refine ⟨by omega, fun item hitem => ?_⟩
    have := itemsDepth_le.mp le_rfl item hitem
    omega

theorem dict_ok_iff {items : List (String × Value)} (ih : ∀ item ∈ items, ∀ {n : ℤ},
    (∃ term, expr item.2 n = .ok term) ↔ (item.2.depth : ℤ) ≤ n) :
    (∃ term, expr (.dict items) n = .ok term) ↔ ((Value.dict items).depth : ℤ) ≤ n := by
  have hitems : (∃ optargs, exprFields items (n - 1) = .ok optargs) ↔
      ∀ item ∈ items, (item.2.depth : ℤ) ≤ n - 1 := by
    simp only [exprFields_eq_ok, exists_forall₂]
    refine forall₂_congr fun item hitem => (Iff.trans ?_ (ih item hitem))
    exact ⟨fun ⟨optarg, _, h⟩ => ⟨optarg.2, h⟩, fun ⟨term, h⟩ => ⟨(item.1, term), rfl, h⟩⟩
  have hdict : (∃ term, expr (.dict items) n = .ok term) ↔
      0 < n ∧ ∃ optargs, exprFields items (n - 1) = .ok optargs := by
    simp only [expr_dict_eq_ok]
    exact ⟨fun ⟨_, hn, optargs, hoptargs, _⟩ => ⟨hn, optargs, hoptargs⟩,
      fun ⟨hn, optargs, hoptargs⟩ => ⟨_, hn, optargs, hoptargs, rfl⟩⟩
  rw [hdict, hitems, Value.depth]
  constructor
  · rintro ⟨hn, h⟩
    have hle : fieldsDepth items ≤ (n - 1).toNat := fieldsDepth_le.mpr fun item hitem => by
      have := h item hitem
      omega
    omega
  · intro h
    refine ⟨by omega, fun item hitem => ?_⟩
    have := fieldsDepth_le.mp le_rfl item hitem
    omega

/-- One level for the value itself, and the rest for what is in it. -/
theorem expr_ok_iff {val : Value} (h : val.Plain) :
    (∃ term, expr val n = .ok term) ↔ (val.depth : ℤ) ≤ n := by
  induction h generalizing n with
  | none => exact leaf_ok_iff rfl fun hn => expr_scalar hn _
  | bool b => exact leaf_ok_iff rfl fun hn => expr_scalar hn _
  | int k => exact leaf_ok_iff rfl fun hn => expr_scalar hn _
  | str s => exact leaf_ok_iff rfl fun hn => expr_scalar hn _
  | bytes data => exact leaf_ok_iff rfl fun hn => expr_bytes hn data
  | list hitems ih => exact list_ok_iff fun item hitem => ih item hitem
  | dict hnodup htype hitems ih => exact dict_ok_iff fun item hitem => ih item hitem

/-! ### What comes back -/

section RoundTrip
variable (MAKE_ARRAY : ℤ)

mutual

/-- Every `[MAKE_ARRAY, [..]]` as the array of its arguments. -/
def collapse : Json → Json
  | .arr [.int term, .arr args] =>
    if term = MAKE_ARRAY then .arr (collapseItems args) else .arr [.int term, .arr (collapseItems args)]
  | .arr items => .arr (collapseItems items)
  | .obj fields => .obj (collapseFields fields)
  | json => json

def collapseItems : List Json → List Json
  | [] => []
  | item :: items => collapse item :: collapseItems items

def collapseFields : List (String × Json) → List (String × Json)
  | [] => []
  | (name, value) :: fields => (name, collapse value) :: collapseFields fields

end

/-- Each format is left out or "native". -/
def FormatOpts.Native (opts : FormatOpts) : Prop :=
  ∀ format ∈ [opts.timeFormat, opts.groupFormat, opts.binaryFormat],
    format = none ∨ format = some "native"

instance (opts : FormatOpts) : Decidable opts.Native := by
  unfold FormatOpts.Native
  infer_instance

variable (converters : Converters) (opts : FormatOpts)

/-- What is shown of a value and its term, by induction on the value. -/
structure Returns (val : Value) (term : Term) : Prop where
  readable : Json.Readable (term.build MAKE_ARRAY)
  collapsed : Json.Readable (collapse MAKE_ARRAY (term.build MAKE_ARRAY))
  converted : convert converters opts (collapse MAKE_ARRAY (term.build MAKE_ARRAY)) = .ok val

variable {MAKE_ARRAY converters opts}

theorem returns_list {items : List Value} {args : List Term}
    (h : List.Forall₂ (Returns MAKE_ARRAY converters opts) items args) :
    Returns MAKE_ARRAY converters opts (.list items) (.makeArray args) := by
  have hargs : (∀ json ∈ buildArgs MAKE_ARRAY args, Json.Readable json) ∧
      (∀ json ∈ collapseItems MAKE_ARRAY (buildArgs MAKE_ARRAY args), Json.Readable json) ∧
      convertItems converters opts (collapseItems MAKE_ARRAY (buildArgs MAKE_ARRAY args)) = .ok items := by
    induction h with
    | nil => exact ⟨nofun, nofun, rfl⟩
    | cons h _ ih =>
      obtain ⟨hreadable, hcollapsed, hconverted⟩ := ih
      refine ⟨List.forall_mem_cons.mpr ⟨h.readable, hreadable⟩,
        List.forall_mem_cons.mpr ⟨h.collapsed, hcollapsed⟩, ?_⟩
      rw [buildArgs, collapseItems, convertItems, h.converted, hconverted]
      rfl
  obtain ⟨hreadable, hcollapsed, hconverted⟩ := hargs
  have hcollapse : collapse MAKE_ARRAY ((Term.makeArray args).build MAKE_ARRAY) =
      .arr (collapseItems MAKE_ARRAY (buildArgs MAKE_ARRAY args)) := by
    rw [Term.build, collapse, if_pos rfl]
  refine ⟨?_, hcollapse ▸ .arr hcollapsed, ?_⟩
  · refine .arr (List.forall_mem_cons.mpr ⟨.int _, List.forall_mem_singleton.mpr (.arr hreadable)⟩)
  · rw [hcollapse, convert, hconverted]
    rfl

theorem returns_dict {items : List (String × Value)} {optargs : List (String × Term)}
    (hnodup : (items.map Prod.fst).Nodup) (htype : "$reql_type$" ∉ items.map Prod.fst)
    (h : List.Forall₂ (fun item optarg => item.1 = optarg.1 ∧
      Returns MAKE_ARRAY converters opts item.2 optarg.2) items optargs) :
    Returns MAKE_ARRAY converters opts (.dict items) (.makeObj optargs) := by
  have hoptargs : (buildOptargs MAKE_ARRAY optargs).map Prod.fst = items.map Prod.fst ∧
      (collapseFields MAKE_ARRAY (buildOptargs MAKE_ARRAY optargs)).map Prod.fst =
        items.map Prod.fst ∧
      (∀ field ∈ buildOptargs MAKE_ARRAY optargs, Json.Readable field.2) ∧
      (∀ field ∈ collapseFields MAKE_ARRAY (buildOptargs MAKE_ARRAY optargs),
        Json.Readable field.2) ∧
      convertFields converters opts (collapseFields MAKE_ARRAY (buildOptargs MAKE_ARRAY optargs)) =
        .ok items := by
    clear hnodup htype
    induction h with
    | nil => exact ⟨rfl, rfl, nofun, nofun, rfl⟩
    | @cons item optarg items optargs h _ ih =>
      obtain ⟨hnames, hnames', hreadable, hcollapsed, hconverted⟩ := ih
      obtain ⟨hname, h⟩ := h
      refine ⟨?_, ?_, List.forall_mem_cons.mpr ⟨h.readable, hreadable⟩,
        List.forall_mem_cons.mpr ⟨h.collapsed, hcollapsed⟩, ?_⟩
      · rw [buildOptargs, List.map_cons, List.map_cons, hnames, hname]
      · rw [buildOptargs, collapseFields, List.map_cons, List.map_cons, hnames', hname]
      · rw [buildOptargs, collapseFields, convertFields, h.converted, hconverted, ← hname]
        rfl
  obtain ⟨hnames, hnames', hreadable, hcollapsed, hconverted⟩ := hoptargs
  have hcollapse : collapse MAKE_ARRAY ((Term.makeObj optargs).build MAKE_ARRAY) =
      .obj (collapseFields MAKE_ARRAY (buildOptargs MAKE_ARRAY optargs)) := by
    rw [Term.build, collapse]
  refine ⟨.obj (hnames ▸ hnodup) hreadable, hcollapse ▸ .obj (hnames' ▸ hnodup) hcollapsed, ?_⟩
  have hlookup : items.lookup "$reql_type$" = none := by
    rw [List.lookup_eq_none_iff]
    intro item hitem
    rw [bne_iff_ne]
    exact fun heq => htype (heq ▸ List.mem_map_of_mem hitem)
  rw [hcollapse, convert, hconverted]
  change convertPseudotype converters opts items = _
  rw [convertPseudotype, hlookup]

theorem returns_bytes (hopts : opts.Native) (data : Bytes) :
    Returns MAKE_ARRAY converters opts (.bytes data) (.binary (.b64encode data)) := by
  have hreadable : Json.Readable (.obj [("$reql_type$", .str "BINARY"),
      ("data", .str (Base64Data.b64encode data).text)]) := by
    refine .obj (by simp) ?_
    simp only [List.forall_mem_cons]
    exact ⟨.str _, .str _, nofun⟩
  have htext : utf8Encode (Base64Data.b64encode data).text = Base64.encode data :=
    utf8Encode_asciiDecode (if_pos (Base64Data.b64encode data).ascii)
  have hbinary : convertBinary [("$reql_type$", .scalar (.str "BINARY")),
      ("data", .scalar (.str (Base64Data.b64encode data).text))] = .ok (.bytes data) := by
    simp [convertBinary, List.lookup_cons, htext, Base64.decode_encode]
  refine ⟨hreadable, hreadable, ?_⟩
  change convertPseudotype converters opts [("$reql_type$", .scalar (.str "BINARY")),
      ("data", .scalar (.str (Base64Data.b64encode data).text))] = _
  have hformat : opts.binaryFormat = none ∨ opts.binaryFormat = some "native" :=
    hopts opts.binaryFormat (by simp)
  unfold convertPseudotype withFormat
  rcases hformat with h | h <;> simp [h, hbinary]

theorem returns {val : Value} (hopts : opts.Native) (h : val.Plain) {term : Term}
    (hterm : expr val n = .ok term) : Returns MAKE_ARRAY converters opts val term := by
  induction h generalizing n term with
  | none =>
    rw [expr_scalar (pos_of_expr hterm)] at hterm
    cases hterm
    exact ⟨.null, .null, rfl⟩
  | bool b =>
    rw [expr_scalar (pos_of_expr hterm)] at hterm
    cases hterm
    exact ⟨.bool b, .bool b, rfl⟩
  | int k =>
    rw [expr_scalar (pos_of_expr hterm)] at hterm
    cases hterm
    exact ⟨.int k, .int k, rfl⟩
  | str s =>
    rw [expr_scalar (pos_of_expr hterm)] at hterm
    cases hterm
    exact ⟨.str s, .str s, rfl⟩
  | bytes data =>
    rw [expr_bytes (pos_of_expr hterm)] at hterm
    cases hterm
    exact returns_bytes hopts data
  | list hitems ih =>
    obtain ⟨-, args, hargs, rfl⟩ := expr_list_eq_ok.mp hterm
    exact returns_list (forall₂_of_mem (exprItems_eq_ok.mp hargs)
      fun item hitem arg harg => ih item hitem harg)
  | dict hnodup htype hitems ih =>
    obtain ⟨-, optargs, hoptargs, rfl⟩ := expr_dict_eq_ok.mp hterm
    exact returns_dict hnodup htype (forall₂_of_mem (exprFields_eq_ok.mp hoptargs)
      fun item hitem optarg ⟨hname, hoptarg⟩ => ⟨hname, ih item hitem hoptarg⟩)

end RoundTrip

/-- `expr` succeeds up to the depth of the value, what it sends is read back as the value, and so
no two values are sent alike. -/
theorem expr_faithful (MAKE_ARRAY : ℤ) (floatRepr : PyFloat → List Char) (converters : Converters)
    {opts : FormatOpts} (hopts : opts.Native) {val : Value} (hval : val.Plain) (n : ℤ) :
    ((∃ term, expr val n = .ok term) ↔ (val.depth : ℤ) ≤ n) ∧
    (∀ term, expr val n = .ok term → ∃ json, Json.loads (encode MAKE_ARRAY floatRepr term) = some json ∧
      decode converters opts ((collapse MAKE_ARRAY json).render floatRepr) = .ok val) ∧
    ∀ val' n' term term', val'.Plain → expr val n = .ok term → expr val' n' = .ok term' →
      encode MAKE_ARRAY floatRepr term = encode MAKE_ARRAY floatRepr term' → val = val' := by
  have hback : ∀ {val : Value} {n : ℤ} {term : Term}, val.Plain → expr val n = .ok term →
      Returns MAKE_ARRAY converters opts val term := fun hval hterm => returns hopts hval hterm
  refine ⟨expr_ok_iff hval, fun term hterm => ?_, fun val' n' term term' hval' hterm hterm' heq => ?_⟩
  · obtain ⟨hreadable, hcollapsed, hconverted⟩ := hback hval hterm
    refine ⟨term.build MAKE_ARRAY, Json.loads_render floatRepr hreadable, ?_⟩
    rw [decode, Json.loads_render floatRepr hcollapsed]
    exact hconverted
  · have hsame : term.build MAKE_ARRAY = term'.build MAKE_ARRAY :=
      Json.render_injective floatRepr (hback hval hterm).readable (hback hval' hterm').readable heq
    have hconverted := (hback hval hterm).converted
    rw [hsame, (hback hval' hterm').converted] at hconverted
    exact (Except.ok.inj hconverted).symm

/-- `{"a": [1, None, b"\xff"], "b": {}}`, of depth 3. -/
def sampleValue : Value :=
  .dict [("a", .list [.scalar (.int 1), .scalar .none, .bytes [255]]), ("b", .dict [])]

def sampleConverters : Converters where
  convertTime _ := .error .value
  convertGroupedData _ := .error .value

theorem expr_faithful_nested :
    ((∃ term, expr sampleValue 3 = .ok term) ↔ (sampleValue.depth : ℤ) ≤ 3) ∧
    (∀ term, expr sampleValue 3 = .ok term → ∃ json,
      Json.loads (encode 2 (fun _ => []) term) = some json ∧
      decode sampleConverters ⟨none, none, some "native"⟩ ((collapse 2 json).render fun _ => []) =
        .ok sampleValue) ∧
    ∀ val' n' term term', val'.Plain → expr sampleValue 3 = .ok term → expr val' n' = .ok term' →
      encode 2 (fun _ => []) term = encode 2 (fun _ => []) term' → sampleValue = val' := by
  have hplain : sampleValue.Plain := by
    refine .dict (by decide) (by decide) ?_
    simp only [List.forall_mem_cons]
    refine ⟨.list ?_, .dict (by decide) (by decide) nofun, nofun⟩
    simp only [List.forall_mem_cons]
    exact ⟨.int 1, .none, .bytes [255], nofun⟩
  exact expr_faithful 2 (fun _ => []) sampleConverters (by decide) hplain 3

end RethinkDB.Ast
