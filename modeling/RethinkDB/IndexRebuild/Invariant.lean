import RethinkDB.IndexRebuild.Loop

/-! Every listed index is replaced once, under cover of at most so many temporary indexes, and the
progress goes up. -/
namespace RethinkDB.IndexRebuild
open RethinkDB.Lib

/-! ### The progress -/

/-- How far rounding may take a ratio above 1, with `k` indexes in progress. -/
def bound (k : ℕ) : ℚ := (1 + unitRoundoff) ^ (k + 2) * (1 + (2 * k + 2) * halfTiniest)

/-- The same for the part that `k` indexes in progress have added. -/
def drift (total k : ℕ) : ℚ :=
  (1 + unitRoundoff) ^ (k + 1) * (k / total + 2 * k * halfTiniest)

section Progress
-- one rounding multiplies by at most `v` and adds at most `η`
variable {v η r x a : ℚ}

theorem rounded_sum_le (hv : 1 ≤ v) (hη : 0 ≤ η) {y : ℚ} (m : ℕ) (hy : 0 ≤ y)
    (hle : r ≤ v ^ (m + 1) * a) (hxy : x ≤ y * v + η) :
    (r + x) * v + η ≤ v ^ (m + 2) * (a + y + 2 * η) := by
  have hv0 : 0 ≤ v := zero_le_one.trans hv
  have hone (k : ℕ) : 1 ≤ v ^ k := one_le_pow₀ hv
  have hvv : v * v ≤ v ^ (m + 2) := by
    calc v * v = v ^ 2 := (sq v).symm
      _ ≤ v ^ (m + 2) := pow_le_pow_right₀ hv (Nat.le_add_left 2 m)
  have hvm : v ≤ v ^ (m + 2) := by
    calc v = v ^ 1 := (pow_one v).symm
      _ ≤ v ^ (m + 2) := pow_le_pow_right₀ hv (by omega)
  calc (r + x) * v + η ≤ (v ^ (m + 1) * a + (y * v + η)) * v + η := by gcongr
    _ = v ^ (m + 2) * a + y * (v * v) + η * v + η := by ring
    _ ≤ v ^ (m + 2) * a + y * v ^ (m + 2) + η * v ^ (m + 2) + η * v ^ (m + 2) := by
      have := le_mul_of_one_le_right hη (hone (m + 2))
      gcongr
    _ = v ^ (m + 2) * (a + y + 2 * η) := by ring

end Progress

theorem addDouble_nonneg {a b : ℚ} (ha : 0 ≤ a) (hb : 0 ≤ b) : 0 ≤ addDouble a b :=
  roundDouble_nonneg (add_nonneg ha hb)

theorem divDouble_nonneg {a b : ℚ} (ha : 0 ≤ a) (hb : 0 ≤ b) : 0 ≤ divDouble a b :=
  roundDouble_nonneg (div_nonneg ha hb)

theorem addDouble_divDouble_le {r p a : ℚ} (total : ℕ) {m : ℕ} (hr : 0 ≤ r) (hp : 0 ≤ p)
    (hle : r ≤ (1 + unitRoundoff) ^ (m + 1) * a) :
    addDouble r (divDouble p total) ≤
      (1 + unitRoundoff) ^ (m + 2) * (a + p / total + 2 * halfTiniest) := by
  have hη := halfTiniest_nonneg
  have hu := unitRoundoff_nonneg
  have hquot : 0 ≤ p / (total : ℚ) := by positivity
  have hdiv : 0 ≤ divDouble p total := divDouble_nonneg hp (Nat.cast_nonneg _)
  calc addDouble r (divDouble p total)
      ≤ (r + divDouble p total) * (1 + unitRoundoff) + halfTiniest :=
        roundDouble_le (add_nonneg hr hdiv)
    _ ≤ (1 + unitRoundoff) ^ (m + 2) * (a + p / total + 2 * halfTiniest) :=
        rounded_sum_le (le_add_of_nonneg_right hu) hη m hquot hle (roundDouble_le hquot)

theorem drift_succ {r p : ℚ} {total m : ℕ} (hr : 0 ≤ r) (hp : 0 ≤ p) (hp1 : p ≤ 1)
    (hle : r ≤ drift total m) :
    addDouble r (divDouble p total) ≤ drift total (m + 1) := by
  have hη := halfTiniest_nonneg
  have hu := unitRoundoff_nonneg
  have hle' := addDouble_divDouble_le total hr hp hle
  refine hle'.trans ?_
  unfold drift
  have hpart : p / (total : ℚ) ≤ 1 / total := by gcongr
  have hsum : (m : ℚ) / total + 2 * m * halfTiniest + p / total + 2 * halfTiniest ≤
      (m + 1 : ℕ) / total + 2 * (m + 1 : ℕ) * halfTiniest := by
    push_cast
    rw [add_div]
    linarith
  gcongr

theorem le_bound {r : ℚ} {total k c : ℕ} (hr : 0 ≤ r) (hle : r ≤ drift total k)
    (hc : k + c ≤ total) :
    addDouble r (divDouble c total) ≤ bound k := by
  have hη := halfTiniest_nonneg
  have hu := unitRoundoff_nonneg
  have hle' := addDouble_divDouble_le total hr (Nat.cast_nonneg c) hle
  refine hle'.trans ?_
  unfold bound
  have hratio : (k : ℚ) / total + c / total ≤ 1 := by
    rw [← add_div]
    exact div_le_one_of_le₀ (by exact_mod_cast hc) (Nat.cast_nonneg _)
  have hsum : (k : ℚ) / total + 2 * k * halfTiniest + c / total + 2 * halfTiniest ≤
      1 + (2 * k + 2) * halfTiniest := by linarith
  gcongr

theorem bound_mono {k n : ℕ} (h : k ≤ n) : bound k ≤ bound n := by
  have hη := halfTiniest_nonneg
  have hu := unitRoundoff_nonneg
  have hv : (1 : ℚ) ≤ 1 + unitRoundoff := le_add_of_nonneg_right hu
  unfold bound
  gcongr

theorem bound_pos (k : ℕ) : 0 ≤ bound k := by
  have hη := halfTiniest_nonneg
  have hu := unitRoundoff_nonneg
  unfold bound
  positivity

/-! ### The indexes -/

theorem temp_isTemp (i : Index) : i.temp.IsTemp := by
  unfold Index.IsTemp Index.temp
  rw [String.toList_append]
  exact List.prefix_append _ _

theorem temp_injective {i j : Index} (h : i.temp = j.temp) : i = j := by
  obtain ⟨db, table, name⟩ := i
  obtain ⟨db', table', name'⟩ := j
  obtain ⟨rfl, rfl, hname⟩ := Index.mk.inj h
  have hlist := congrArg String.toList hname
  rw [String.toList_append, String.toList_append] at hlist
  have hn : name = name' := String.toList_inj.mp (List.append_cancel_left hlist)
  subst hn
  rfl

/-- The listed indexes are there, and their tables have no index that looks temporary. -/
structure Sane {F : Type} (server : Server F) (indexes : List Index) : Prop where
  distinct : indexes.Nodup
  exist : ∀ i ∈ indexes, server i ≠ none
  clean : ∀ i ∈ indexes, ∀ j : Index, j.db = i.db → j.table = i.table → j.IsTemp → server j = none

section Sane
variable {F : Type} {server : Server F} {indexes : List Index}

theorem Sane.temp_absent (h : Sane server indexes) {i : Index} (hi : i ∈ indexes) :
    server i.temp = none :=
  h.clean i hi i.temp rfl rfl (temp_isTemp i)

/-- A listed index is nobody's temporary one. -/
theorem Sane.ne_temp (h : Sane server indexes) {i j : Index} (hi : i ∈ indexes)
    (hj : j ∈ indexes) : i ≠ j.temp := by
  intro hij
  exact h.exist i hi (hij ▸ h.temp_absent hj)

end Sane

/-! ### The invariant -/

section Invariant
variable {F : Type}

/-- The indexes that have a temporary one. -/
def State.building (s : State F) : List Index :=
  (s.inProgress.filter fun p => !p.ready).map Progress.index

/-- The server is what it was, and has a copy under the temporary name of every index in `live`. -/
def Overlay (server now : Server F) (live : List Index) : Prop :=
  (∀ i ∈ live, now i.temp = server i) ∧ ∀ j, (∀ i ∈ live, j ≠ i.temp) → now j = server j

/-- The ratio in each phase, for `n` concurrent rebuilds. -/
def InRange (n : ℕ) (s : State F) : Prop :=
  0 ≤ s.progressRatio ∧ match s.phase with
    | .polling todo => s.progressRatio ≤ drift s.total (s.building.length - todo.length)
    | _ => s.progressRatio ≤ bound n

structure Inv (server : Server F) (indexes : List Index) (n : ℕ) (s : State F) : Prop where
  sound : s.phase ≠ .raised
  total : s.total = indexes.length
  parts : (s.toBuild ++ (s.building ++ s.renamed)).Perm indexes
  room : s.inProgress.length ≤ n
  distinct : (s.inProgress.map Progress.index).Nodup
  fresh : s.phase = .filling → ∀ p ∈ s.inProgress, p.ready = false
  todo : ∀ todo, s.phase = .polling todo → s.total ≠ 0 ∧ todo.Nodup ∧ ∀ i ∈ todo, i ∈ s.building
  done : s.phase = .ended → s.toBuild = [] ∧ s.inProgress = []
  overlay : Overlay server s.server s.building
  range : InRange n s
  highest : 0 ≤ s.highestProgress ∧ s.highestProgress ≤ bound n
  printed : s.printed.Pairwise (· ≤ ·) ∧ ∀ p ∈ s.printed, 0 ≤ p ∧ p ≤ s.highestProgress

variable {server : Server F} {indexes : List Index} {n : ℕ} {s s' : State F}

theorem inv_init : Inv server indexes n (init server indexes) where
  sound := by simp [init]
  total := rfl
  parts := by simp [init, State.building]
  room := Nat.zero_le n
  distinct := List.nodup_nil
  fresh := by simp [init]
  todo := by simp [init]
  done := by simp [init]
  overlay := ⟨by simp [init, State.building], fun _ _ => rfl⟩
  range := ⟨le_rfl, bound_pos n⟩
  highest := ⟨le_rfl, bound_pos n⟩
  printed := ⟨List.Pairwise.nil, by simp [init]⟩

theorem Inv.mem_of_building (h : Inv server indexes n s) {i : Index} (hi : i ∈ s.building) :
    i ∈ indexes :=
  h.parts.subset (List.mem_append_right _ (List.mem_append_left _ hi))

theorem Inv.building_nodup (h : Inv server indexes n s) : s.building.Nodup :=
  (List.filter_sublist.map Progress.index).nodup h.distinct

theorem Inv.building_length (h : Inv server indexes n s) :
    s.toBuild.length + s.building.length ≤ s.total := by
  have hlength := h.parts.length_eq
  rw [List.length_append, List.length_append, ← h.total] at hlength
  omega

/-- The server still has every index it had. -/
theorem Inv.server_eq (h : Inv server indexes n s) (hsane : Sane server indexes) {i : Index}
    (hi : i ∈ indexes) : s.server i = server i :=
  h.overlay.2 i fun _ hj => hsane.ne_temp hi (h.mem_of_building hj)

theorem building_fresh (hfresh : ∀ p ∈ s.inProgress, p.ready = false) :
    s.building = s.inProgress.map Progress.index := by
  unfold State.building
  rw [List.filter_eq_self.mpr]
  intro p hp
  rw [hfresh p hp]
  rfl

theorem Overlay.set {now : Server F} {live : List Index} (h : Overlay server now live) {i : Index}
    (hi : ∀ j ∈ live, i.temp ≠ j.temp) : Overlay server (now.set i.temp (server i)) (live ++ [i]) := by
  constructor
  · intro j hj
    rcases List.mem_append.mp hj with hj | hj
    · rw [Server.set, if_neg (fun heq => hi j hj heq.symm)]
      exact h.1 j hj
    · rw [List.mem_singleton.mp hj, Server.set, if_pos rfl]
  · intro j hj
    rw [Server.set, if_neg (hj i (by simp))]
    exact h.2 j fun k hk => hj k (List.mem_append_left _ hk)

theorem Overlay.rename {now : Server F} {live live' : List Index} (h : Overlay server now live)
    {i : Index} (hi : i ∈ live) (hlive : ∀ j, j ∈ live' ↔ j ∈ live ∧ j ≠ i)
    (hself : ∀ j ∈ live, i ≠ j.temp) (habsent : server i.temp = none) :
    Overlay server (now.rename i) live' := by
  have hrename (j) : now.rename i j =
      if j = i.temp then none else if j = i then now i.temp else now j := rfl
  refine ⟨fun j hj => ?_, fun j hj => ?_⟩
  · obtain ⟨hjlive, hji⟩ := (hlive j).mp hj
    rw [hrename, if_neg fun heq => hji (temp_injective heq), if_neg fun heq => hself j hjlive heq.symm]
    exact h.1 j hjlive
  · rw [hrename]
    by_cases hjt : j = i.temp
    · rw [if_pos hjt, hjt, habsent]
    · rw [if_neg hjt]
      by_cases hji : j = i
      · rw [if_pos hji, hji]
        exact h.1 i hi
      · rw [if_neg hji]
        refine h.2 j fun k hk heq => ?_
        by_cases hki : k = i
        · exact hjt (hki ▸ heq)
        · exact hj k ((hlive k).mpr ⟨hk, hki⟩) heq

/-- An index goes to the list in progress, and its temporary one is created. -/
theorem Inv.start (h : Inv server indexes n s) (hsane : Sane server indexes) {i : Index}
    (hphase : s.phase = .filling) (hroom : s.inProgress.length < n)
    (hlast : s.toBuild.getLast? = some i) :
    s.server i = server i ∧ s.server i.temp = none ∧
      Inv server indexes n { s with
        toBuild := s.toBuild.dropLast, inProgress := s.inProgress ++ [Progress.mk i false]
        server := s.server.set i.temp (server i) } := by
  have hbuild : s.toBuild.dropLast ++ [i] = s.toBuild := List.dropLast_append_getLast? i hlast
  have hbuilding := building_fresh (h.fresh hphase)
  have hparts := h.parts
  rw [← hbuild, List.append_assoc] at hparts
  have hnodup := hparts.nodup_iff.mpr hsane.distinct
  have hi : i ∈ indexes := hparts.subset (by simp)
  have hnew : i ∉ s.building := by
    have hright := (List.nodup_append.mp hnodup).2.1
    rw [List.singleton_append, List.nodup_cons] at hright
    exact fun hmem => hright.1 (List.mem_append_left _ hmem)
  have hne : ∀ j ∈ s.building, i.temp ≠ j.temp :=
    fun j hj heq => hnew (temp_injective heq ▸ hj)
  have hnow : (s.inProgress ++ [Progress.mk i false]).map Progress.index = s.building ++ [i] := by
    rw [List.map_append, hbuilding]
    rfl
  have hfresh : ∀ p ∈ s.inProgress ++ [Progress.mk i false], p.ready = false := by
    intro p hp
    rcases List.mem_append.mp hp with hp | hp
    · exact h.fresh hphase p hp
    · rw [List.mem_singleton.mp hp]
  have hbuilding' : ({ s with
        toBuild := s.toBuild.dropLast, inProgress := s.inProgress ++ [Progress.mk i false]
        server := s.server.set i.temp (server i) } : State F).building = s.building ++ [i] :=
    (building_fresh hfresh).trans hnow
  refine ⟨h.server_eq hsane hi, (h.overlay.2 _ hne).trans (hsane.temp_absent hi), ?_⟩
  exact {
    sound := h.sound
    total := h.total
    parts := by
      rw [hbuilding']
      refine (List.Perm.append_left _ ?_).trans hparts
      rw [List.append_assoc]
      exact List.perm_append_comm_assoc _ _ _
    room := by
      rw [List.length_append]
      exact hroom
    distinct := by
      rw [hnow]
      exact List.Nodup.append h.building_nodup (List.nodup_singleton i) (by simpa using hnew)
    fresh := fun _ => hfresh
    todo := by simp [hphase]
    done := by simp [hphase]
    overlay := hbuilding' ▸ h.overlay.set hne
    range := by
      have hrange := h.range
      unfold InRange at hrange ⊢
      rw [hphase] at hrange
      simpa only [hphase] using hrange
    highest := h.highest
    printed := h.printed }

theorem Inv.report (h : Inv server indexes n s) (hphase : s.phase = .filling)
    (hwork : s.toBuild ≠ [] ∨ s.inProgress ≠ []) :
    Inv server indexes n { s with
      highestProgress := max s.highestProgress s.progressRatio
      printed := s.printed ++ [max s.highestProgress s.progressRatio], progressRatio := 0
      phase := .polling (s.inProgress.map Progress.index) } := by
  have hbuilding := building_fresh (h.fresh hphase)
  have hrange := h.range
  unfold InRange at hrange
  rw [hphase] at hrange
  have hlength := h.building_length
  have htotal : s.total ≠ 0 := by
    rw [hbuilding, List.length_map] at hlength
    rcases hwork with hwork | hwork
    · have := List.length_pos_iff.mpr hwork
      omega
    · have := List.length_pos_iff.mpr hwork
      omega
  exact {
    sound := by simp
    total := h.total
    parts := h.parts
    room := h.room
    distinct := h.distinct
    fresh := by simp
    todo := by
      rintro _ ⟨⟩
      exact ⟨htotal, h.distinct, fun i hi => hbuilding ▸ hi⟩
    done := by simp
    overlay := h.overlay
    range := by
      refine ⟨le_rfl, ?_⟩
      show (0 : ℚ) ≤ drift s.total (s.building.length - (s.inProgress.map Progress.index).length)
      rw [hbuilding, Nat.sub_self]
      simp [drift]
    highest := ⟨le_max_of_le_left h.highest.1, max_le h.highest.2 hrange.2⟩
    printed := by
      refine ⟨List.pairwise_append.mpr ⟨h.printed.1, List.pairwise_singleton _ _, ?_⟩, ?_⟩
      · intro a ha b hb
        rw [List.mem_singleton.mp hb]
        exact (h.printed.2 a ha).2.trans (le_max_left _ _)
      · intro a ha
        rcases List.mem_append.mp ha with ha | ha
        · exact ⟨(h.printed.2 a ha).1, (h.printed.2 a ha).2.trans (le_max_left _ _)⟩
        · rw [List.mem_singleton.mp ha]
          exact ⟨le_max_of_le_left h.highest.1, le_rfl⟩ }

/-- What a poll finds: the temporary index is there. -/
theorem Inv.polled (h : Inv server indexes n s) {i : Index} {todo : List Index}
    (hphase : s.phase = .polling (i :: todo)) :
    i ∈ s.building ∧ i ∉ todo ∧ s.server i.temp = server i := by
  obtain ⟨_, hnodup, hmem⟩ := h.todo _ hphase
  have hi := hmem i List.mem_cons_self
  exact ⟨hi, (List.nodup_cons.mp hnodup).1, h.overlay.1 i hi⟩

theorem todo_length {todo building : List Index} (hnodup : todo.Nodup)
    (hmem : ∀ i ∈ todo, i ∈ building) : todo.length ≤ building.length :=
  (List.subperm_of_subset hnodup hmem).length_le

theorem Inv.wait (h : Inv server indexes n s) {i : Index} {todo : List Index} {p : ℚ}
    (hphase : s.phase = .polling (i :: todo)) (hp : 0 ≤ p) (hp1 : p ≤ 1) :
    Inv server indexes n { s with
      phase := .polling todo
      progressRatio := addDouble s.progressRatio (divDouble p s.total) } := by
  obtain ⟨htotal, hnodup, hmem⟩ := h.todo _ hphase
  have hlength := todo_length hnodup hmem
  have hrange := h.range
  unfold InRange at hrange
  rw [hphase] at hrange
  obtain ⟨hratio, hdrift⟩ := hrange
  exact {
    sound := by simp
    total := h.total
    parts := h.parts
    room := h.room
    distinct := h.distinct
    fresh := by simp
    todo := by
      rintro _ ⟨⟩
      exact ⟨htotal, (List.nodup_cons.mp hnodup).2, fun j hj => hmem j (List.mem_cons_of_mem _ hj)⟩
    done := by simp
    overlay := h.overlay
    range := by
      refine ⟨addDouble_nonneg hratio (divDouble_nonneg hp (Nat.cast_nonneg _)), ?_⟩
      show addDouble s.progressRatio (divDouble p s.total) ≤
        drift s.total (s.building.length - todo.length)
      have hcount : s.building.length - todo.length =
          s.building.length - (i :: todo).length + 1 := by
        rw [List.length_cons] at hlength ⊢
        omega
      rw [hcount]
      exact drift_succ hratio hp hp1 hdrift
    highest := h.highest
    printed := h.printed }

def mark (i : Index) (p : Progress) : Progress := if p.index = i then { p with ready := true } else p

theorem mark_index (i : Index) (p : Progress) : (mark i p).index = p.index := by
  unfold mark
  split <;> rfl

theorem building_mark (i : Index) (l : List Progress) :
    ((l.map (mark i)).filter fun p => !p.ready).map Progress.index =
      ((l.filter fun p => !p.ready).map Progress.index).filter (· ≠ i) := by
  induction l with
  | nil => rfl
  | cons p l ih =>
    rw [List.map_cons, List.filter_cons, List.filter_cons]
    by_cases hi : p.index = i
    · have hmark : mark i p = { p with ready := true } := if_pos hi
      rw [hmark]
      cases p.ready <;> simp [hi, ih]
    · have hmark : mark i p = p := if_neg hi
      rw [hmark]
      cases p.ready <;> simp [hi, ih]

theorem Inv.rename (h : Inv server indexes n s) (hsane : Sane server indexes) {i : Index}
    {todo : List Index} (hphase : s.phase = .polling (i :: todo)) :
    Inv server indexes n { s with
      phase := .polling todo, server := s.server.rename i, renamed := s.renamed ++ [i]
      inProgress := s.inProgress.map (mark i) } := by
  obtain ⟨htotal, hnodup, hmem⟩ := h.todo _ hphase
  obtain ⟨hi, hnew, _⟩ := h.polled hphase
  have hbuilding : ({ s with
      phase := .polling todo, server := s.server.rename i, renamed := s.renamed ++ [i]
      inProgress := s.inProgress.map (mark i) } : State F).building = s.building.filter (· ≠ i) :=
    building_mark i s.inProgress
  have hperm : (i :: s.building.filter (· ≠ i)).Perm s.building := by
    have herase : s.building.erase i = s.building.filter (· ≠ i) := by
      rw [h.building_nodup.erase_eq_filter]
      refine List.filter_congr fun j _ => ?_
      rw [Bool.eq_iff_iff]
      simp
    exact herase ▸ (List.perm_cons_erase hi).symm
  have hlength := hperm.length_eq
  rw [List.length_cons] at hlength
  have hindex : (s.inProgress.map (mark i)).map Progress.index =
      s.inProgress.map Progress.index := by
    rw [List.map_map]
    exact List.map_congr_left fun p _ => mark_index i p
  have hrange := h.range
  unfold InRange at hrange
  rw [hphase] at hrange
  exact {
    sound := by simp
    total := h.total
    parts := by
      rw [hbuilding]
      refine (List.Perm.append_left _ ?_).trans h.parts
      calc s.building.filter (· ≠ i) ++ (s.renamed ++ [i])
          = s.building.filter (· ≠ i) ++ s.renamed ++ [i] := (List.append_assoc _ _ _).symm
        List.Perm _ (i :: (s.building.filter (· ≠ i) ++ s.renamed)) := List.perm_append_singleton _ _
        List.Perm _ (s.building ++ s.renamed) := hperm.append_right s.renamed
    room := by
      rw [List.length_map]
      exact h.room
    distinct := hindex ▸ h.distinct
    fresh := by simp
    todo := by
      rintro _ ⟨⟩
      refine ⟨htotal, (List.nodup_cons.mp hnodup).2, fun j hj => ?_⟩
      rw [hbuilding, List.mem_filter]
      have hji : j ≠ i := fun heq => hnew (heq ▸ hj)
      exact ⟨hmem j (List.mem_cons_of_mem _ hj), by simpa using hji⟩
    done := by simp
    overlay := by
      rw [hbuilding]
      refine h.overlay.rename hi (fun j => by simp) (fun j hj => ?_)
        (hsane.temp_absent (h.mem_of_building hi))
      exact hsane.ne_temp (h.mem_of_building hi) (h.mem_of_building hj)
    range := by
      refine ⟨hrange.1, ?_⟩
      show s.progressRatio ≤ drift s.total (List.length _ - todo.length)
      rw [hbuilding]
      have hcount : s.building.length - (i :: todo).length =
          (s.building.filter (· ≠ i)).length - todo.length := by
        rw [List.length_cons]
        omega
      exact hcount ▸ hrange.2
    highest := h.highest
    printed := h.printed }

theorem Inv.endRound (h : Inv server indexes n s) (hphase : s.phase = .polling []) :
    Inv server indexes n { s with
      inProgress := s.inProgress.filter fun p => !p.ready, phase := .filling
      progressRatio := addDouble s.progressRatio
        (divDouble (s.total - s.toBuild.length - (s.inProgress.filter fun p => !p.ready).length : ℕ)
          s.total) } := by
  have hfilter : (s.inProgress.filter fun p => !p.ready).filter (fun p => !p.ready) =
      s.inProgress.filter fun p => !p.ready := by
    rw [List.filter_filter]
    simp
  have hbuilding : ({ s with
      inProgress := s.inProgress.filter fun p => !p.ready, phase := .filling
      progressRatio := addDouble s.progressRatio
        (divDouble (s.total - s.toBuild.length - (s.inProgress.filter fun p => !p.ready).length : ℕ)
          s.total) } : State F).building = s.building := congrArg (List.map Progress.index) hfilter
  have hlength : (s.inProgress.filter fun p => !p.ready).length = s.building.length :=
    (List.length_map _).symm
  have hroom : (s.inProgress.filter fun p => !p.ready).length ≤ n :=
    (List.length_filter_le _ _).trans h.room
  have hrange := h.range
  unfold InRange at hrange
  rw [hphase] at hrange
  obtain ⟨hratio, hdrift⟩ := hrange
  have hcount := h.building_length
  exact {
    sound := by simp
    total := h.total
    parts := hbuilding ▸ h.parts
    room := hroom
    distinct := h.building_nodup
    fresh := by
      intro _ p hp
      simpa using (List.mem_filter.mp hp).2
    todo := by simp
    done := by simp
    overlay := hbuilding ▸ h.overlay
    range := by
      refine ⟨addDouble_nonneg hratio (divDouble_nonneg (Nat.cast_nonneg _) (Nat.cast_nonneg _)), ?_⟩
      show addDouble s.progressRatio _ ≤ bound n
      refine (le_bound hratio hdrift ?_).trans (bound_mono ?_)
      · rw [List.length_nil]
        omega
      · rw [List.length_nil]
        omega
    highest := h.highest
    printed := h.printed }

def Fair (_ : State F) (e : Event) : Prop := ∀ p, e = .poll (.building p) → 0 ≤ p ∧ p ≤ 1

theorem Inv.step (h : Inv server indexes n s) (hsane : Sane server indexes) {e : Event}
    (hfair : Fair s e) (hstep : IndexRebuild.step n s e = some s') : Inv server indexes n s' := by
  cases e with
  | start =>
    simp only [IndexRebuild.step] at hstep
    split at hstep
    · rename_i hguard
      obtain ⟨hphase, hroom⟩ := hguard
      split at hstep
      · cases hstep
      · rename_i i hlast
        obtain ⟨hserver, habsent, hinv⟩ := h.start hsane hphase hroom hlast
        have hi : i ∈ indexes :=
          h.parts.subset (List.mem_append_left _ (List.mem_of_getLast? hlast))
        cases hf : server i with
        | none => exact absurd hf (hsane.exist i hi)
        | some f =>
          rw [hserver, habsent, hf] at hstep
          cases hstep
          rwa [hf] at hinv
    · cases hstep
  | report =>
    simp only [IndexRebuild.step] at hstep
    split at hstep
    · rename_i hguard
      cases hstep
      exact h.report hguard.1 hguard.2.1
    · cases hstep
  | poll status =>
    simp only [IndexRebuild.step] at hstep
    split at hstep
    · rename_i i todo hphase
      obtain ⟨hi, _, htemp⟩ := h.polled hphase
      cases hf : server i with
      | none => exact absurd hf (hsane.exist i (h.mem_of_building hi))
      | some f =>
        rw [htemp, hf] at hstep
        cases status with
        | ready =>
          cases hstep
          exact h.rename hsane hphase
        | building p =>
          cases hstep
          obtain ⟨hp, hp1⟩ := hfair p rfl
          exact h.wait hphase hp hp1
    · cases hstep
  | endRound =>
    simp only [IndexRebuild.step] at hstep
    split at hstep
    · rename_i hphase
      cases hstep
      exact h.endRound hphase
    · cases hstep
  | print =>
    simp only [IndexRebuild.step] at hstep
    split at hstep
    · rename_i hguard
      obtain ⟨hphase, hbuild, hprogress⟩ := hguard
      cases hstep
      have hrange := h.range
      unfold InRange at hrange
      rw [hphase] at hrange
      exact {
        sound := by simp
        total := h.total
        parts := h.parts
        room := h.room
        distinct := h.distinct
        fresh := by simp
        todo := by simp
        done := fun _ => ⟨hbuild, hprogress⟩
        overlay := h.overlay
        range := hrange
        highest := h.highest
        printed := h.printed }
    · cases hstep

end Invariant

/-! ### Whole runs -/

section Run
variable {F : Type} {server : Server F} {indexes : List Index} {n : ℕ} {s : State F}

/-- At every moment there are at most `n` temporary indexes, each with the definition of the index
it is for, and nothing else differs; at the end every listed index has been replaced once and the
server is as it was. -/
def Replaced (server : Server F) (indexes : List Index) (n : ℕ) (s : State F) : Prop :=
  (∃ live : List Index, live.length ≤ n ∧ (∀ i ∈ live, i ∈ indexes ∧ s.server i.temp = server i) ∧
    ∀ i ∈ indexes, ∀ j : Index, j.db = i.db → j.table = i.table → j.IsTemp → s.server j ≠ none →
      ∃ k ∈ live, j = k.temp) ∧
  (∀ j, (∀ i ∈ indexes, j ≠ i.temp) → s.server j = server j) ∧
  (s.phase = .ended → s.renamed.Perm indexes ∧ s.server = server)

/-- What the loop has printed goes up, from 0 on and to 1 but for rounding errors; it divides by
no zero. -/
def Climbs (n : ℕ) (s : State F) : Prop :=
  s.printed.Pairwise (· ≤ ·) ∧ (∀ p ∈ s.printed, 0 ≤ p ∧ p ≤ bound n) ∧
    ∀ todo, s.phase = .polling todo → s.total ≠ 0

theorem Inv.replaced (h : Inv server indexes n s) (hsane : Sane server indexes) :
    Replaced server indexes n s := by
  refine ⟨⟨s.building, ?_, ?_, ?_⟩, ?_, ?_⟩
  · unfold State.building
    rw [List.length_map]
    exact (List.length_filter_le _ _).trans h.room
  · intro i hi
    exact ⟨h.mem_of_building hi, h.overlay.1 i hi⟩
  · intro i hi j hdb htable htemp hj
    by_contra hnone
    have hsame : s.server j = server j :=
      h.overlay.2 j fun k hk heq => hnone ⟨k, hk, heq⟩
    exact hj (hsame.trans (hsane.clean i hi j hdb htable htemp))
  · intro j hj
    exact h.overlay.2 j fun i hi => hj i (h.mem_of_building hi)
  · intro hended
    obtain ⟨hbuild, hprogress⟩ := h.done hended
    have hnone : s.building = [] := by
      unfold State.building
      rw [hprogress]
      rfl
    refine ⟨?_, funext fun j => h.overlay.2 j (by simp [hnone])⟩
    simpa [hbuild, hnone] using h.parts

theorem Inv.climbs (h : Inv server indexes n s) : Climbs n s :=
  ⟨h.printed.1, fun p hp => ⟨(h.printed.2 p hp).1, (h.printed.2 p hp).2.trans h.highest.2⟩,
    fun todo hphase => (h.todo todo hphase).1⟩

/-- The loop replaces every listed index, whatever the server answers. -/
theorem rebuilds (hsane : Sane server indexes)
    (h : (machine server indexes n).ReachedBy Fair s) :
    s.phase ≠ .raised ∧ Replaced server indexes n s ∧ Climbs n s := by
  have hinv : Inv server indexes n s := h.invariant
    (fun s hinit => hinit ▸ inv_init)
    (fun s e s' _ hs hfair hstep => hs.step hsane hfair hstep)
  exact ⟨hinv.sound, hinv.replaced hsane, hinv.climbs⟩

end Run

/-! ### Two runs -/

def run {F : Type} (n : ℕ) (s : State F) : List Event → Option (State F)
  | [] => some s
  | e :: es => (step n s e).bind fun s' => run n s' es

theorem reachedBy_run {F : Type} {server : Server F} {indexes : List Index} {n : ℕ}
    {s s' : State F} {es : List Event} (hs : (machine server indexes n).ReachedBy Fair s)
    (hfair : ∀ e ∈ es, Fair s e) (h : run n s es = some s') :
    (machine server indexes n).ReachedBy Fair s' := by
  exact hs.run (fun _ => rfl) (fun _ _ _ => rfl) (fun _ _ _ hstep => hstep)
    (fun e he _ => hfair e he) h

def indexesOf (names : List String) : List Index := names.map (Index.mk "test" "words")

def serverOf (names : List String) : Server ℕ := fun i => if i ∈ indexesOf names then some 7 else none

theorem sane_indexesOf {names : List String} (hnodup : (indexesOf names).Nodup)
    (hclean : ∀ i ∈ indexesOf names, ¬i.IsTemp) : Sane (serverOf names) (indexesOf names) where
  distinct := hnodup
  exist i hi := by simp [serverOf, hi]
  clean i _ j _ _ htemp := if_neg fun hj => hclean j hj htemp

/-- Two indexes at once, of which one takes two rounds. -/
theorem rebuilds_two :
    ∃ s, (machine (serverOf ["a", "b"]) (indexesOf ["a", "b"]) 2).ReachedBy Fair s ∧
      s.phase = .ended ∧ s.renamed = indexesOf ["a", "b"] ∧
      Replaced (serverOf ["a", "b"]) (indexesOf ["a", "b"]) 2 s ∧ Climbs 2 s := by
  have hsane : Sane (serverOf ["a", "b"]) (indexesOf ["a", "b"]) :=
    sane_indexesOf (by decide) (by decide)
  have hrun : (run 2 (init (serverOf ["a", "b"]) (indexesOf ["a", "b"]))
      [.start, .start, .report, .poll (.building (1 / 2)), .poll .ready, .endRound, .report,
        .poll .ready, .endRound, .print]).map (fun s => (s.phase, s.renamed)) =
      some (.ended, indexesOf ["a", "b"]) := by decide +kernel
  obtain ⟨s, hs, hfields⟩ := Option.map_eq_some_iff.mp hrun
  obtain ⟨hended, hrenamed⟩ := Prod.mk.inj hfields
  have hreached := reachedBy_run (.init rfl) ?_ hs
  · obtain ⟨-, hreplaced, hclimbs⟩ := rebuilds hsane hreached
    exact ⟨s, hreached, hended, hrenamed, hreplaced, hclimbs⟩
  · intro e he p hp
    subst hp
    simp at he
    subst he
    norm_num

/-- Nine indexes at once, each built but not ready: nine ninths add up to more than 1. -/
theorem printed_exceeds_one :
    ∃ names : List String, ∃ s,
      Sane (serverOf names) (indexesOf names) ∧
      (machine (serverOf names) (indexesOf names) 9).ReachedBy Fair s ∧
      ∃ p ∈ s.printed, 1 < p := by
  have hsane : Sane (serverOf ["a", "b", "c", "d", "e", "f", "g", "h", "i"])
      (indexesOf ["a", "b", "c", "d", "e", "f", "g", "h", "i"]) :=
    sane_indexesOf (by decide) (by decide)
  have hrun : (run 9 (init (serverOf ["a", "b", "c", "d", "e", "f", "g", "h", "i"])
        (indexesOf ["a", "b", "c", "d", "e", "f", "g", "h", "i"]))
      (List.replicate 9 .start ++ [.report] ++ List.replicate 9 (.poll (.building 1)) ++
        [.endRound, .report])).map State.printed = some [0, 1 + 1 / 2 ^ 52] := by
    decide +kernel
  obtain ⟨s, hs, hprinted⟩ := Option.map_eq_some_iff.mp hrun
  refine ⟨_, s, hsane, reachedBy_run (.init rfl) ?_ hs, 1 + 1 / 2 ^ 52, ?_, ?_⟩
  · intro e he p hp
    subst hp
    simp at he
    subst he
    norm_num
  · simp [hprinted]
  · norm_num

end RethinkDB.IndexRebuild
