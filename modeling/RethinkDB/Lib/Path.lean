import Mathlib.Data.List.DropRight
import Mathlib.Data.List.Infix
import Mathlib.Tactic.SplitIfs
import RethinkDB.Lib.Str

/-! `posixpath`, on the characters of a path. -/
namespace RethinkDB.Lib

abbrev Path := List Char

namespace Path

/-- `splitext(path)`: leading dots of the last component start no extension. -/
def splitext (path : Path) : Path × Path :=
  let inExt (c : Char) := c ≠ '.' && c ≠ '/'
  let stem := path.rdropWhile inExt
  let root := stem.dropLast
  if stem.getLast? = some '.' ∧ (root.rtakeWhile (· ≠ '/')).any (· ≠ '.') then
    (root, '.' :: path.rtakeWhile inExt)
  else (path, [])

def basename (path : Path) : Path := path.rtakeWhile (· ≠ '/')

/-- A path that more can be put behind. -/
def asDir (path : Path) : Path :=
  if path = [] ∨ path.getLast? = some '/' then path else path ++ ['/']

/-- `join(path, b)`. -/
def join (path b : Path) : Path := if b.head? = some '/' then b else asDir path ++ b

/-- POSIX allows two leading slashes, and more are as good as one. -/
def initialSlashes (path : Path) : ℕ :=
  let n := (path.takeWhile (· = '/')).length
  if n ≤ 2 then n else 1

/-- One component in the loop of `normpath`. -/
def push (initialSlashes : ℕ) (comps : List Path) (comp : Path) : List Path :=
  if comp = [] ∨ comp = ['.'] then comps
  else if comp ≠ ['.', '.'] ∨ (initialSlashes = 0 ∧ comps = []) ∨
    comps.getLast? = some ['.', '.'] then
    comps ++ [comp]
  else comps.dropLast

def unsplit (comps : List Path) : Path := ['/'].intercalate comps

def normpath (path : Path) : Path :=
  let n := initialSlashes path
  let path := List.replicate n '/' ++ unsplit ((path.splitOn '/').foldl (push n) [])
  if path = [] then ['.'] else path

structure Cwd where
  path : Path
  absolute : path.head? = some '/'

/-- `abspath(path)`; it is `realpath(path)` where there are no links. -/
def abspath (cwd : Cwd) (path : Path) : Path :=
  normpath (if path.head? = some '/' then path else join cwd.path path)

/-- `len(commonprefix([xs, ys]))`. -/
def commonLength : List Path → List Path → ℕ
  | x :: xs, y :: ys => if x = y then commonLength xs ys + 1 else 0
  | _, _ => 0

/-- The components of `abspath(path)`. -/
def parts (cwd : Cwd) (path : Path) : List Path :=
  ((abspath cwd path).splitOn '/').filter (· ≠ [])

def relpath (cwd : Cwd) (path : Path) : Path :=
  let start := parts cwd cwd.path
  let path := parts cwd path
  let i := commonLength start path
  let comps := List.replicate (start.length - i) ['.', '.'] ++ path.drop i
  if comps = [] then ['.'] else unsplit comps

/-! ### Components -/

/-- A component that stays where it is put. -/
structure Proper (comp : Path) : Prop where
  ne_nil : comp ≠ []
  ne_curdir : comp ≠ ['.']
  ne_pardir : comp ≠ ['.', '.']
  no_sep : '/' ∉ comp

theorem join_of_proper {path b : Path} (h : Proper b) : join path b = asDir path ++ b := by
  unfold join
  rw [if_neg]
  intro hhead
  exact h.no_sep (List.mem_of_head? hhead)

theorem asDir_append {path comp : Path} (h : Proper comp) :
    asDir (path ++ comp) = path ++ comp ++ ['/'] := by
  unfold asDir
  rw [if_neg]
  rw [not_or]
  constructor
  · simp [h.ne_nil]
  · intro hlast
    rw [List.getLast?_append_of_ne_nil _ h.ne_nil] at hlast
    exact h.no_sep (List.mem_of_getLast? hlast)

theorem push_proper {n : ℕ} (hn : n ≠ 0) {comps : List Path} {comp : Path}
    (hcomps : ∀ c ∈ comps, Proper c) (hcomp : '/' ∉ comp) : ∀ c ∈ push n comps comp, Proper c := by
  unfold push
  split_ifs with hskip happend
  · exact hcomps
  · have hpardir : comp ≠ ['.', '.'] := by
      intro heq
      have hlast : comps.getLast? = some ['.', '.'] := by
        simpa [heq, hn] using happend
      exact (hcomps _ (List.mem_of_getLast? hlast)).ne_pardir rfl
    rw [not_or] at hskip
    intro c hc
    cases List.mem_append.mp hc with
    | inl hc => exact hcomps c hc
    | inr hc =>
      rw [List.mem_singleton.mp hc]
      exact ⟨hskip.1, hskip.2, hpardir, hcomp⟩
  · exact fun c hc => hcomps c (List.mem_of_mem_dropLast hc)

/-- A path split, normalised and joined again. -/
theorem foldl_push_proper {n : ℕ} (hn : n ≠ 0) {comps comps' : List Path}
    (hcomps : ∀ c ∈ comps, Proper c) (hcomps' : ∀ c ∈ comps', '/' ∉ c) :
    ∀ c ∈ comps'.foldl (push n) comps, Proper c := by
  induction comps' generalizing comps with
  | nil => exact hcomps
  | cons comp comps' ih =>
    rw [List.foldl_cons]
    exact ih (push_proper hn hcomps (hcomps' comp (by simp))) fun c hc => hcomps' c (by simp [hc])

theorem splitOn_replicate (n : ℕ) (path : Path) :
    (List.replicate n '/' ++ path).splitOn '/' = List.replicate n [] ++ path.splitOn '/' := by
  induction n with
  | zero => rfl
  | succ n ih =>
    rw [List.replicate_succ, List.cons_append, List.splitOn_cons_eq_if_modifyHead,
      if_pos (beq_self_eq_true '/'), ih]
    rfl

theorem initialSlashes_ne_zero {path : Path} (h : path.head? = some '/') :
    initialSlashes path ≠ 0 := by
  cases path with
  | nil => cases h
  | cons c path =>
    rw [List.head?_cons, Option.some.injEq] at h
    rw [h]
    simp only [initialSlashes, List.takeWhile_cons, decide_true, if_true, List.length_cons]
    split_ifs <;> omega

theorem splitOn_unsplit {comps : List Path} (h : ∀ c ∈ comps, Proper c) (hne : comps ≠ []) :
    (unsplit comps).splitOn '/' = comps :=
  List.splitOn_intercalate '/' (fun c hc => (h c hc).no_sep) hne

theorem splitOn_normpath {path : Path} (h : path.head? = some '/') :
    ∀ c ∈ (normpath path).splitOn '/', c ≠ [] → Proper c := by
  have hn := initialSlashes_ne_zero h
  intro c hc hne
  have hproper : ∀ c ∈ (path.splitOn '/').foldl (push (initialSlashes path)) [], Proper c :=
    foldl_push_proper hn (by simp) fun c hc => Str.not_mem_splitOn hc
  unfold normpath at hc
  dsimp only at hc
  generalize (path.splitOn '/').foldl (push (initialSlashes path)) [] = comps at hc hproper
  have hjoined : List.replicate (initialSlashes path) '/' ++ unsplit comps ≠ [] := by
    simp [hn]
  rw [if_neg hjoined, splitOn_replicate] at hc
  have hmem : c ∈ (unsplit comps).splitOn '/' := by
    cases List.mem_append.mp hc with
    | inl hc => exact absurd (List.eq_of_mem_replicate hc) hne
    | inr hc => exact hc
  by_cases hcomps : comps = []
  · rw [hcomps] at hmem
    exact absurd (List.mem_singleton.mp hmem) hne
  · rw [splitOn_unsplit hproper hcomps] at hmem
    exact hproper c hmem

theorem join_head {cwd : Cwd} {path : Path} (h : path.head? ≠ some '/') :
    (join cwd.path path).head? = some '/' := by
  have hne : cwd.path ≠ [] := by
    intro hnil
    have habsolute := cwd.absolute
    rw [hnil] at habsolute
    cases habsolute
  unfold join asDir
  rw [if_neg h]
  split_ifs
  · rw [List.head?_append_of_ne_nil _ hne, cwd.absolute]
  · rw [List.append_assoc, List.head?_append_of_ne_nil _ hne, cwd.absolute]

theorem parts_proper (cwd : Cwd) (path : Path) : ∀ c ∈ parts cwd path, Proper c := by
  intro c hc
  unfold parts at hc
  obtain ⟨hc, hne⟩ := List.mem_filter.mp hc
  have hne : c ≠ [] := by simpa using hne
  unfold abspath at hc
  split_ifs at hc with hpath
  · exact splitOn_normpath hpath c hc hne
  · exact splitOn_normpath (join_head hpath) c hc hne

theorem prefix_unsplit (comp : Path) (comps : List Path) : comp <+: unsplit (comp :: comps) := by
  cases comps with
  | nil => rw [unsplit, List.intercalate_singleton]
  | cons comp' comps =>
    rw [unsplit, List.intercalate_cons_cons, List.append_assoc]
    exact List.prefix_append _ _

/-- What `relpath` returns: `.`, a way out of the directory, or proper components. -/
theorem relpath_cases (cwd : Cwd) (path : Path) :
    relpath cwd path = ['.'] ∨ ['.', '.'] <+: relpath cwd path ∨
      ∃ comps, comps ≠ [] ∧ (∀ c ∈ comps, Proper c) ∧ relpath cwd path = unsplit comps := by
  unfold relpath
  extract_lets start path' i comps
  split_ifs with hcomps
  · exact .inl rfl
  right
  by_cases hup : start.length - i = 0
  · right
    have hdrop : comps = path'.drop i := by
      rw [show comps = List.replicate (start.length - i) ['.', '.'] ++ path'.drop i from rfl, hup]
      rfl
    refine ⟨comps, hcomps, fun c hc => parts_proper cwd path c ?_, rfl⟩
    rw [hdrop] at hc
    exact List.mem_of_mem_drop hc
  · left
    obtain ⟨k, hk⟩ := Nat.exists_eq_succ_of_ne_zero hup
    have hcons : comps = ['.', '.'] :: (List.replicate k ['.', '.'] ++ path'.drop i) := by
      rw [show comps = List.replicate (start.length - i) ['.', '.'] ++ path'.drop i from rfl, hk]
      rfl
    rw [hcons]
    exact prefix_unsplit _ _

theorem splitext_append (path : Path) : (splitext path).1 ++ (splitext path).2 = path := by
  unfold splitext
  extract_lets inExt stem root
  split_ifs with h
  · have hstem : root ++ ['.'] = stem := by
      have hne : stem ≠ [] := by
        intro hnil
        rw [hnil] at h
        cases h.1
      have hlast : stem.getLast hne = '.' := by
        rw [← Option.some.injEq, ← List.getLast?_eq_some_getLast hne]
        exact h.1
      rw [← hlast]
      exact List.dropLast_append_getLast hne
    calc root ++ '.' :: path.rtakeWhile inExt = (root ++ ['.']) ++ path.rtakeWhile inExt := by simp
      _ = stem ++ path.rtakeWhile inExt := by rw [hstem]
      _ = path := List.rdropWhile_append_rtakeWhile
  · exact List.append_nil path

/-- The end of a path is the end of its last component. -/
theorem suffix_of_no_sep {dir file ext : Path} (hext : '/' ∉ ext)
    (h : ext <:+ dir ++ '/' :: file) : ext <:+ file := by
  have hfile : '/' :: file <:+ dir ++ '/' :: file := List.suffix_append _ _
  by_cases hlength : ext.length ≤ file.length
  · exact List.suffix_of_suffix_length_le h ((List.suffix_cons _ _).trans hfile) hlength
  · have hlonger : '/' :: file <:+ ext := by
      apply List.suffix_of_suffix_length_le hfile h
      rw [List.length_cons]
      omega
    exact absurd (hlonger.subset (by simp)) hext

/-! ### Paths below a directory -/

theorem push_eq_append {n : ℕ} {comps : List Path} {comp : Path} (h : Proper comp) :
    push n comps comp = comps ++ [comp] := by
  unfold push
  rw [if_neg (by simp [h.ne_nil, h.ne_curdir]), if_pos (.inl h.ne_pardir)]

theorem push_nil (n : ℕ) (comps : List Path) : push n comps [] = comps := if_pos (.inl rfl)

/-- How many slashes a path begins with makes no difference but for none. -/
theorem push_slashes {n m : ℕ} (hn : n ≠ 0) (hm : m ≠ 0) : push n = push m := by
  funext comps comp
  simp only [push, hn, hm, false_and]

theorem foldl_push_append {n : ℕ} {comps comps' : List Path} (h : ∀ c ∈ comps', Proper c) :
    comps'.foldl (push n) comps = comps ++ comps' := by
  induction comps' generalizing comps with
  | nil => rw [List.foldl_nil, List.append_nil]
  | cons comp comps' ih =>
    rw [List.forall_mem_cons] at h
    rw [List.foldl_cons, push_eq_append h.1, ih h.2, List.append_assoc, List.singleton_append]

/-- The components that an absolute path is normalised to. -/
theorem filter_splitOn_normpath {path : Path} (h : path.head? = some '/') :
    ((normpath path).splitOn '/').filter (· ≠ []) = (path.splitOn '/').foldl (push 1) [] := by
  have hn := initialSlashes_ne_zero h
  have hproper : ∀ c ∈ (path.splitOn '/').foldl (push (initialSlashes path)) [], Proper c :=
    foldl_push_proper hn (by simp) fun c hc => Str.not_mem_splitOn hc
  unfold normpath
  dsimp only
  rw [push_slashes hn Nat.one_ne_zero] at hproper ⊢
  generalize (path.splitOn '/').foldl (push 1) [] = comps at hproper ⊢
  have hjoined : List.replicate (initialSlashes path) '/' ++ unsplit comps ≠ [] := by
    simp [hn]
  have hslashes : (List.replicate (initialSlashes path) ([] : Path)).filter (· ≠ []) = [] := by
    rw [List.filter_eq_nil_iff]
    intro c hc
    simp [List.eq_of_mem_replicate hc]
  rw [if_neg hjoined, splitOn_replicate, List.filter_append, hslashes, List.nil_append]
  cases comps with
  | nil => rfl
  | cons comp comps =>
    rw [splitOn_unsplit hproper (List.cons_ne_nil _ _), List.filter_eq_self]
    intro c hc
    simpa using (hproper c hc).ne_nil

theorem exists_asDir {path : Path} (h : path ≠ []) : ∃ base, asDir path = base ++ ['/'] ∧
    (path = base ∨ path = base ++ ['/']) := by
  unfold asDir
  by_cases hlast : path.getLast? = some '/'
  · obtain ⟨base, hbase⟩ := List.getLast?_eq_some_iff.mp hlast
    rw [if_pos (.inr hlast)]
    exact ⟨base, hbase, .inr hbase⟩
  · rw [if_neg (by simp [h, hlast])]
    exact ⟨path, rfl, .inl rfl⟩

/-- What is below a directory has its components and more. -/
theorem parts_below (cwd : Cwd) {comps : List Path} (h : ∀ c ∈ comps, Proper c) (hne : comps ≠ []) :
    parts cwd (asDir cwd.path ++ unsplit comps) = parts cwd cwd.path ++ comps := by
  have hcwd : cwd.path ≠ [] := by
    intro hnil
    have habsolute := cwd.absolute
    rw [hnil] at habsolute
    cases habsolute
  obtain ⟨base, hasDir, hbase⟩ := exists_asDir hcwd
  have hhead : (asDir cwd.path ++ unsplit comps).head? = some '/' := by
    rw [hasDir]
    rcases hbase with hbase | hbase
    · rw [← hbase, List.append_assoc, List.head?_append_of_ne_nil _ hcwd]
      exact cwd.absolute
    · rw [← hbase, List.head?_append_of_ne_nil _ hcwd]
      exact cwd.absolute
  have hstart :
      (cwd.path.splitOn '/').foldl (push 1) [] = (base.splitOn '/').foldl (push 1) [] := by
    rcases hbase with hbase | hbase
    · rw [hbase]
    · rw [hbase, List.splitOn_append_cons_self, List.foldl_append]
      exact push_nil 1 _
  unfold parts abspath
  rw [if_pos hhead, if_pos cwd.absolute, filter_splitOn_normpath hhead,
    filter_splitOn_normpath cwd.absolute,
    hstart, hasDir, List.append_assoc, List.singleton_append, List.splitOn_append_cons_self,
    List.foldl_append,
    splitOn_unsplit h hne, foldl_push_append h]

theorem commonLength_append (xs ys : List Path) : commonLength xs (xs ++ ys) = xs.length := by
  induction xs with
  | nil => cases ys <;> rfl
  | cons x xs ih => rw [List.cons_append, commonLength, if_pos rfl, ih, List.length_cons]

/-- The path of what is below a directory, relative to it. -/
theorem relpath_below (cwd : Cwd) {comps : List Path} (h : ∀ c ∈ comps, Proper c)
    (hne : comps ≠ []) :
    relpath cwd (asDir cwd.path ++ unsplit comps) = unsplit comps := by
  unfold relpath
  extract_lets start path i comps'
  have hi : i = start.length := by
    rw [show i = commonLength start path from rfl,
      show path = start ++ comps from parts_below cwd h hne,
      commonLength_append]
  have hcomps : comps' = comps := by
    rw [show comps' = List.replicate (start.length - i) ['.', '.'] ++ path.drop i from rfl, hi,
      show path = start ++ comps from parts_below cwd h hne, List.drop_left]
    simp
  rw [hcomps, if_neg hne]

theorem head_unsplit {comps : List Path} (h : ∀ c ∈ comps, Proper c) (hne : comps ≠ []) :
    (unsplit comps).head? ≠ some '/' := by
  cases comps with
  | nil => exact absurd rfl hne
  | cons comp comps =>
    have hcomp := h comp List.mem_cons_self
    obtain ⟨rest, hrest⟩ := prefix_unsplit comp comps
    rw [← hrest, List.head?_append_of_ne_nil _ hcomp.ne_nil]
    intro hhead
    exact hcomp.no_sep (List.mem_of_head? hhead)

theorem head_normpath {path : Path} (h : path.head? = some '/') :
    (normpath path).head? = some '/' := by
  obtain ⟨n, hn⟩ := Nat.exists_eq_succ_of_ne_zero (initialSlashes_ne_zero h)
  unfold normpath
  dsimp only
  rw [hn, List.replicate_succ]
  rfl

theorem head_abspath (cwd : Cwd) (path : Path) : (abspath cwd path).head? = some '/' := by
  unfold abspath
  by_cases h : path.head? = some '/'
  · rw [if_pos h]
    exact head_normpath h
  · rw [if_neg h]
    exact head_normpath (join_head h)

/-- Normalising twice is normalising once. -/
theorem foldl_normpath {path : Path} (h : path.head? = some '/') :
    ((normpath path).splitOn '/').foldl (push 1) [] = (path.splitOn '/').foldl (push 1) [] := by
  have hskip : ∀ comps comps' : List Path,
      (comps'.filter (· ≠ [])).foldl (push 1) comps = comps'.foldl (push 1) comps := by
    intro comps comps'
    induction comps' generalizing comps with
    | nil => rfl
    | cons comp comps' ih =>
      by_cases hcomp : comp = []
      · rw [List.filter_cons_of_neg (by simp [hcomp]), List.foldl_cons, hcomp, push_nil]
        exact ih comps
      · rw [List.filter_cons_of_pos (by simp [hcomp]), List.foldl_cons, List.foldl_cons, ih]
  have hproper : ∀ c ∈ (path.splitOn '/').foldl (push 1) [], Proper c :=
    foldl_push_proper Nat.one_ne_zero (by simp) fun c hc => Str.not_mem_splitOn hc
  rw [← hskip, filter_splitOn_normpath h, foldl_push_append hproper, List.nil_append]

theorem parts_abspath (cwd : Cwd) (path : Path) :
    parts cwd (abspath cwd path) = parts cwd path := by
  have hhead := head_abspath cwd path
  have habsolute : ∃ full : Path, full.head? = some '/' ∧ abspath cwd path = normpath full := by
    unfold abspath
    by_cases h : path.head? = some '/'
    · exact ⟨path, h, by rw [if_pos h]⟩
    · exact ⟨_, join_head h, by rw [if_neg h]⟩
  obtain ⟨full, hfull, heq⟩ := habsolute
  have houter : abspath cwd (abspath cwd path) = normpath (abspath cwd path) := by
    rw [abspath, if_pos hhead]
  unfold parts
  rw [houter, filter_splitOn_normpath hhead, heq, filter_splitOn_normpath hfull,
    foldl_normpath hfull]

/-- A relative path stays what it is. -/
theorem relpath_abspath (cwd : Cwd) {comps : List Path} (h : ∀ c ∈ comps, Proper c)
    (hne : comps ≠ []) :
    relpath cwd (abspath cwd (unsplit comps)) = unsplit comps := by
  have hcwd : ¬ (asDir cwd.path ++ unsplit comps).head? ≠ some '/' := by
    have hjoin : (join cwd.path (unsplit comps)).head? = some '/' := join_head (head_unsplit h hne)
    unfold join at hjoin
    rw [if_neg (head_unsplit h hne)] at hjoin
    exact not_not.mpr hjoin
  have hsame : parts cwd (unsplit comps) = parts cwd (asDir cwd.path ++ unsplit comps) := by
    unfold parts abspath
    rw [if_neg (head_unsplit h hne), if_pos (not_not.mp hcwd), join, if_neg (head_unsplit h hne)]
  have hrelpath := relpath_below cwd h hne
  unfold relpath at hrelpath ⊢
  rw [parts_abspath, hsame]
  exact hrelpath

/-- An extension of a component that has more than dots before it. -/
theorem splitext_dot {root ext : Path} (hext : ∀ c ∈ ext, c ≠ '.' ∧ c ≠ '/')
    (hroot : (root.rtakeWhile (· ≠ '/')).any (· ≠ '.') = true) :
    splitext (root ++ '.' :: ext) = (root, '.' :: ext) := by
  have hall : ∀ c ∈ ext, (c ≠ '.' && c ≠ '/') = true := by
    intro c hc
    simpa using hext c hc
  have hreverse : (root ++ '.' :: ext).reverse = ext.reverse ++ '.' :: root.reverse := by simp
  have hall' : ∀ c ∈ ext.reverse, (c ≠ '.' && c ≠ '/') = true := by
    intro c hc
    exact hall c (List.mem_reverse.mp hc)
  have hstem : (root ++ '.' :: ext).rdropWhile (fun c => c ≠ '.' && c ≠ '/') = root ++ ['.'] := by
    rw [List.rdropWhile, hreverse, List.dropWhile_append_of_pos hall',
      List.dropWhile_cons_of_neg (by simp)]
    simp
  have htake : (root ++ '.' :: ext).rtakeWhile (fun c => c ≠ '.' && c ≠ '/') = ext := by
    rw [List.rtakeWhile, hreverse, List.takeWhile_append_of_pos hall',
      List.takeWhile_cons_of_neg (by simp)]
    simp
  unfold splitext
  dsimp only
  rw [hstem, htake, List.dropLast_concat, if_pos ⟨List.getLast?_concat, hroot⟩]

end Path
end RethinkDB.Lib
