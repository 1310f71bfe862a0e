import Mathlib.Data.List.Forall2
import Mathlib.Data.List.Induction
import Mathlib.Data.List.Nodup
import RethinkDB.Ast.Func

/-! Lambdas are compiled hygienically: ids are never shared, and every variable is bound where it
was written. -/
namespace RethinkDB.Ast.Lambda
open RethinkDB.Lib

/-! ### Constructions under any fresh ids -/

namespace Build
variable {α β : Type}

/-- However the ids are drawn, from `next` on and each of them once, `P` holds of the counter and
the result in the end. -/
def Means (P : ℕ → α → Prop) : ℕ → Build α → Prop
  | next, done a => P next a
  | next, func arity k => ∀ ids next', ids.length = arity → ids.Nodup →
    (∀ id ∈ ids, next ≤ id ∧ id < next') → next ≤ next' → Means P next' (k ids)

theorem Means.mono {P P' : ℕ → α → Prop} (hP : ∀ n a, P n a → P' n a) {b : Build α} {next : ℕ}
    (h : b.Means P next) : b.Means P' next := by
  induction b generalizing next with
  | done a => exact hP _ _ h
  | func arity k ih =>
    intro ids next' hlength hnodup hids hle
    exact ih ids (h ids next' hlength hnodup hids hle)

theorem Means.bind {P : ℕ → β → Prop} {b : Build α} {f : α → Build β} {next : ℕ}
    (h : b.Means (fun n a => (f a).Means P n) next) : (b >>= f).Means P next := by
  induction b generalizing next with
  | done a => exact h
  | func arity k ih =>
    intro ids next' hlength hnodup hids hle
    exact ih ids (h ids next' hlength hnodup hids hle)

theorem Means.all {ι : Sort*} {P : ι → ℕ → α → Prop} {b : Build α} {next : ℕ}
    (h : ∀ i, b.Means (P i) next) : b.Means (fun n a => ∀ i, P i n a) next := by
  induction b generalizing next with
  | done a => exact h
  | func arity k ih =>
    intro ids next' hlength hnodup hids hle
    exact ih ids fun i => h i ids next' hlength hnodup hids hle

/-- Ids drawn later are as good. -/
theorem Means.later {P : α → Prop} {b : Build α} {next later : ℕ}
    (h : b.Means (fun _ => P) next) (hle : next ≤ later) : b.Means (fun _ => P) later := by
  cases b with
  | done a => exact h
  | func arity k =>
    intro ids next' hlength hnodup hids hle'
    exact h ids next' hlength hnodup
      (fun id hid => ⟨Nat.le_trans hle (hids id hid).1, (hids id hid).2⟩) (Nat.le_trans hle hle')

end Build

/-! ### Binding -/

theorem forall₂_getElem? {α β : Type} {R : α → β → Prop} {l : List α} {l' : List β}
    (h : List.Forall₂ R l l') {i : ℕ} {a : α} (ha : l[i]? = some a) :
    ∃ b, l'[i]? = some b ∧ R a b := by
  induction h generalizing i with
  | nil => cases ha
  | cons hab _ ih =>
    cases i with
    | zero =>
      cases ha
      exact ⟨_, rfl, hab⟩
    | succ i => exact ih ha

section Binding
variable {S : Signature} {D : Type} (A : Algebra S D)

/-- The ids in scope stand for the arguments in scope. -/
def Agree (ρ : ℕ → D) : List (List ℕ) → List (ℕ → D) → Prop :=
  List.Forall₂ fun ids f => ∀ j id, ids[j]? = some id → ρ id = f j

/-- The objects mean what they should in the scope they are used in. -/
def Known (env : List (List ℕ)) (frames : List (ℕ → D)) :
    List (Term S) → List (D × Bool) → Prop :=
  List.Forall₂ fun object val =>
    (∀ ρ, Agree ρ env frames → object.eval A ρ = val.1) ∧ object.ivarScan = val.2

def Right (env : List (List ℕ)) (objects : List (Term S)) (p : Py S) (t : Term S) : Prop :=
  ∀ frames vals, Known A env frames objects vals →
    (∀ ρ, Agree ρ env frames → t.eval A ρ = p.denote A frames vals) ∧
      t.ivarScan = p.hasRow (vals.map Prod.snd)

def RightArgs (env : List (List ℕ)) (objects : List (Term S)) (ps : List (Py S))
    (ts : List (Term S)) : Prop :=
  ∀ frames vals, Known A env frames objects vals →
    (∀ ρ, Agree ρ env frames → evalArgs A ρ ts = denoteArgs A frames vals ps) ∧
      anyIvar ts = anyRow (vals.map Prod.snd) ps

variable {A}

theorem Known.inner {env : List (List ℕ)} {frames : List (ℕ → D)} {objects : List (Term S)}
    {vals : List (D × Bool)} (h : Known A env frames objects vals) (ids : List ℕ) (f : ℕ → D) :
    Known A (ids :: env) (f :: frames) objects vals := by
  refine List.Forall₂.imp (fun object val hval => ?_) h
  exact ⟨fun ρ hρ => hval.1 ρ (List.forall₂_cons.mp hρ).2, hval.2⟩

/-- Fresh ids hide no parameter in scope. -/
theorem Agree.bindIds {ρ : ℕ → D} {env : List (List ℕ)} {frames : List (ℕ → D)}
    (h : Agree ρ env frames) {ids : List ℕ} {next : ℕ} (henv : ∀ ids ∈ env, ∀ id ∈ ids, id < next)
    (hids : ∀ id ∈ ids, next ≤ id) (vals : Fin ids.length → D) :
    Agree (bindIds ids vals ρ) env frames := by
  unfold Agree at h ⊢
  induction h with
  | nil => exact .nil
  | @cons ids' f env frames hhead _ ih =>
    refine .cons (fun j id hid => ?_) (ih fun ids hmem => henv ids (List.mem_cons_of_mem _ hmem))
    have hmem : id ∈ ids' := List.mem_of_getElem? hid
    have hout : id ∉ ids := by
      intro hin
      have hlt := henv ids' List.mem_cons_self id hmem
      have hle := hids id hin
      omega
    rw [Lambda.bindIds, dif_neg hout]
    exact hhead j id hid

/-- The new ids stand for the new arguments. -/
theorem bindIds_frame {ids : List ℕ} (hnodup : ids.Nodup) (vals : Fin ids.length → D)
    (ρ : ℕ → D) (default : D) {j id : ℕ} (hid : ids[j]? = some id) :
    bindIds ids vals ρ id = frame vals default j := by
  obtain ⟨hj, hget⟩ := List.getElem?_eq_some_iff.mp hid
  have hmem : id ∈ ids := hget ▸ List.getElem_mem hj
  have hidx : ids.idxOf id = j := by
    rw [← hget]
    exact hnodup.idxOf_getElem j hj
  rw [Lambda.bindIds, dif_pos hmem, frame, dif_pos hj]
  congr 1
  exact Fin.ext hidx

theorem func_const {n m : ℕ} (h : n = m) (d : D) :
    (A.func n fun _ => d) = A.func m fun _ => d := by
  subst h
  rfl

variable {env : List (List ℕ)} {objects : List (Term S)} {next : ℕ}

/-- `func_wrap` of a term that is right. -/
theorem means_funcWrap {p : Py S} {t : Term S} (henv : ∀ ids ∈ env, ∀ id ∈ ids, id < next)
    (ht : Right A env objects p t) :
    (funcWrap t).Means (fun n t' => next ≤ n ∧ Right A env objects (.funcWrap p) t') next := by
  unfold funcWrap
  split
  · rename_i hscan
    intro ids next' hlength hnodup hids hle
    refine ⟨hle, fun frames vals hknown => ?_⟩
    obtain ⟨heval, hrow⟩ := ht frames vals hknown
    rw [hscan] at hrow
    constructor
    · intro ρ hρ
      have hbody : (fun args => t.eval A (bindIds ids args ρ)) = fun _ => p.denote A frames vals :=
        funext fun args => heval _ (hρ.bindIds henv (fun id hid => (hids id hid).1) args)
      rw [Term.eval, hbody, Py.denote, wrapped, ← hrow, if_pos rfl]
      exact func_const hlength _
    · rw [Term.ivarScan, Py.hasRow, ← hrow]
      exact hscan
  · rename_i hscan
    refine ⟨Nat.le_refl _, fun frames vals hknown => ?_⟩
    obtain ⟨heval, hrow⟩ := ht frames vals hknown
    have hnone : p.hasRow (vals.map Prod.snd) = false := by
      rw [← hrow]
      exact Bool.eq_false_iff.mpr hscan
    refine ⟨fun ρ hρ => ?_, hrow⟩
    rw [Py.denote, wrapped, hnone]
    exact heval ρ hρ

/-- What a `Func` is made of: its ids and its body. -/
theorem right_func {ids : List ℕ} {body : Py S} {t : Term S}
    (henv : ∀ ids ∈ env, ∀ id ∈ ids, id < next) (hids : ∀ id ∈ ids, next ≤ id)
    (hnodup : ids.Nodup) (ht : Right A (ids :: env) objects body t) :
    Right A env objects (.lam ids.length body) (.func ids t) := by
  intro frames vals hknown
  constructor
  · intro ρ hρ
    rw [Term.eval, Py.denote]
    congr 1
    funext args
    refine (ht _ vals (hknown.inner ids _)).1 _ (.cons ?_ (hρ.bindIds henv hids args))
    exact fun j id hid => bindIds_frame hnodup args ρ A.row hid
  · exact (ht ((fun _ => A.row) :: frames) vals (hknown.inner ids _)).2

/-- A finished part does not depend on what is built next. -/
theorem below_later {next later : ℕ} (henv : ∀ ids ∈ env, ∀ id ∈ ids, id < next)
    (hle : next ≤ later) : ∀ ids ∈ env, ∀ id ∈ ids, id < later :=
  fun ids hids id hid => Nat.lt_of_lt_of_le (henv ids hids id hid) hle

mutual

/-- Whatever fresh ids are drawn, the term built for a program binds as the program does. -/
theorem means_build (p : Py S) (env : List (List ℕ)) (objects : List (Term S)) (next : ℕ)
    (hp : p.Scoped (env.map List.length) objects.length)
    (henv : ∀ ids ∈ env, ∀ id ∈ ids, id < next) :
    (p.build env objects).Means (fun n t => next ≤ n ∧ Right A env objects p t) next := by
  cases p with
  | param depth index =>
    refine ⟨Nat.le_refl _, fun frames vals _ => ⟨fun ρ hρ => ?_, rfl⟩⟩
    obtain ⟨arity, harity, hindex⟩ := hp
    rw [List.getElem?_map] at harity
    obtain ⟨ids, hids, rfl⟩ := Option.map_eq_some_iff.mp harity
    obtain ⟨f, hf, hagree⟩ := forall₂_getElem? hρ hids
    have hvar : (env.getD depth []).getD index 0 = ids[index] := by
      simp [List.getD_eq_getElem?_getD, hids, hindex]
    rw [Term.eval, Py.denote, hvar, List.getD_eq_getElem?_getD, hf]
    exact hagree index _ (List.getElem?_eq_getElem hindex)
  | object i =>
    refine ⟨Nat.le_refl _, fun frames vals hknown => ?_⟩
    have hi : i < objects.length := hp
    obtain ⟨val, hval, hmeans⟩ := forall₂_getElem? hknown (List.getElem?_eq_getElem hi)
    have hobject : objects.getD i .implicitVar = objects[i] := by
      simp [List.getD_eq_getElem?_getD, hi]
    rw [hobject, Py.denote, Py.hasRow, List.getD_eq_getElem?_getD, hval,
      List.getD_eq_getElem?_getD, List.getElem?_map, hval]
    exact hmeans
  | row => exact ⟨Nat.le_refl _, fun frames vals _ => ⟨fun ρ _ => rfl, rfl⟩⟩
  | op o args =>
    refine ((means_buildArgs args env objects next hp henv).mono ?_).bind
    rintro n ts ⟨hle, hts⟩
    refine ⟨hle, fun frames vals hknown => ?_⟩
    obtain ⟨heval, hrow⟩ := hts frames vals hknown
    exact ⟨fun ρ hρ => congrArg (A.op o) (heval ρ hρ), hrow⟩
  | lam arity body =>
    intro ids next' hlength hnodup hids hle
    subst hlength
    have hinner : ∀ ids' ∈ ids :: env, ∀ id ∈ ids', id < next' := by
      intro ids' hmem id hid
      rcases List.mem_cons.mp hmem with rfl | hmem
      · exact (hids id hid).2
      · exact Nat.lt_of_lt_of_le (henv ids' hmem id hid) hle
    refine ((means_build body (ids :: env) objects next' hp hinner).mono ?_).bind
    rintro n t ⟨hle', ht⟩
    exact ⟨Nat.le_trans hle hle',
      right_func henv (fun id hid => (hids id hid).1) hnodup ht⟩
  | funcWrap val =>
    refine ((means_build val env objects next hp henv).mono ?_).bind
    rintro n t ⟨hle, ht⟩
    refine (means_funcWrap (below_later henv hle) ht).mono ?_
    exact fun m t' h => ⟨Nat.le_trans hle h.1, h.2⟩
  | funCall args fn =>
    refine ((means_build fn env objects next hp.1 henv).mono ?_).bind
    rintro n t ⟨hle, ht⟩
    refine ((means_funcWrap (below_later henv hle) ht).mono ?_).bind
    rintro n' t' ⟨hle', ht'⟩
    have hbelow := below_later henv (Nat.le_trans hle hle')
    refine ((means_buildArgs args env objects n' hp.2 hbelow).mono ?_).bind
    rintro n'' ts ⟨hle'', hts⟩
    refine ⟨Nat.le_trans (Nat.le_trans hle hle') hle'', fun frames vals hknown => ?_⟩
    obtain ⟨hfn, hfnRow⟩ := ht' frames vals hknown
    obtain ⟨hargs, hargsRow⟩ := hts frames vals hknown
    constructor
    · intro ρ hρ
      rw [Term.eval, evalArgs, hfn ρ hρ, hargs ρ hρ]
      rfl
    · rw [Term.ivarScan, anyIvar, hfnRow, hargsRow]
      rfl
  | share val body =>
    refine ((means_build val env objects next hp.1 henv).mono ?_).bind
    rintro n t ⟨hle, ht⟩
    have hscoped : body.Scoped (env.map List.length) (objects ++ [t]).length := by
      rw [List.length_append]
      exact hp.2
    refine (means_build body env (objects ++ [t]) n hscoped (below_later henv hle)).mono ?_
    rintro n' t' ⟨hle', ht'⟩
    refine ⟨Nat.le_trans hle hle', fun frames vals hknown => ?_⟩
    have hshared := ht frames vals hknown
    have hknown' : Known A env frames (objects ++ [t])
        (vals ++ [(val.denote A frames vals, val.hasRow (vals.map Prod.snd))]) :=
      List.rel_append hknown (.cons hshared .nil)
    obtain ⟨heval, hrow⟩ := ht' frames _ hknown'
    rw [List.map_append] at hrow
    exact ⟨heval, hrow⟩

theorem means_buildArgs (ps : List (Py S)) (env : List (List ℕ)) (objects : List (Term S))
    (next : ℕ) (hp : ScopedArgs (env.map List.length) objects.length ps)
    (henv : ∀ ids ∈ env, ∀ id ∈ ids, id < next) :
    (buildArgs env objects ps).Means (fun n ts => next ≤ n ∧ RightArgs A env objects ps ts)
      next := by
  cases ps with
  | nil => exact ⟨Nat.le_refl _, fun frames vals _ => ⟨fun ρ _ => rfl, rfl⟩⟩
  | cons p ps =>
    refine ((means_build p env objects next hp.1 henv).mono ?_).bind
    rintro n t ⟨hle, ht⟩
    refine ((means_buildArgs ps env objects n hp.2 (below_later henv hle)).mono ?_).bind
    rintro n' ts ⟨hle', hts⟩
    refine ⟨Nat.le_trans hle hle', fun frames vals hknown => ?_⟩
    obtain ⟨hhead, hheadRow⟩ := ht frames vals hknown
    obtain ⟨htail, htailRow⟩ := hts frames vals hknown
    constructor
    · intro ρ hρ
      rw [evalArgs, hhead ρ hρ, htail ρ hρ]
      rfl
    · rw [anyIvar, hheadRow, htailRow]
      rfl

end

end Binding

/-! ### What the objects stand for -/

section Objects
variable {S : Signature} {D : Type} (A : Algebra S D)

theorem meanings_append (objects : List (Object S)) (o : Object S) :
    meanings A (objects ++ [o]) = meanings A objects ++ [o.meaning A (meanings A objects)] := by
  rw [meanings, List.foldl_append]
  rfl

theorem length_meanings (objects : List (Object S)) :
    (meanings A objects).length = objects.length := by
  induction objects using List.reverseRecOn with
  | nil => rfl
  | append_singleton objects o ih => rw [meanings_append, List.length_append, ih]; simp

/-- What the first objects stand for does not change. -/
theorem take_meanings_append {objects : List (Object S)} {n : ℕ} (hn : n ≤ objects.length)
    (o : Object S) : (meanings A (objects ++ [o])).take n = (meanings A objects).take n := by
  rw [meanings_append, List.take_append_of_le_length]
  rwa [length_meanings]

/-- A term binds as its program does, whatever it is taken to. -/
def Faithful (objects : List (Object S)) (program : Py S) (uses : ℕ) (t : Term S) : Prop :=
  ∀ (D : Type) (A : Algebra S D),
    (∀ ρ, t.eval A ρ = program.denote A [] ((meanings A objects).take uses)) ∧
      t.ivarScan = program.hasRow (((meanings A objects).take uses).map Prod.snd)

theorem Faithful.append {objects : List (Object S)} {program : Py S} {uses : ℕ} {t : Term S}
    (h : Faithful objects program uses t) (huses : uses ≤ objects.length) (o : Object S) :
    Faithful (objects ++ [o]) program uses t := by
  intro D A
  rw [take_meanings_append A huses]
  exact h D A

/-- Every object is faithful to a program over the ones before it. -/
inductive Sound : List (Object S) → Prop
  | nil : Sound []
  | snoc {objects : List (Object S)} {o : Object S} : Sound objects → o.uses ≤ objects.length →
      Faithful objects o.program o.uses o.term → Sound (objects ++ [o])

theorem Sound.known {objects : List (Object S)} (h : Sound objects) :
    Known A [] [] (objects.map Object.term) (meanings A objects) := by
  induction h with
  | nil => exact .nil
  | @snoc objects o _ _ hfaithful ih =>
    obtain ⟨heval, hrow⟩ := hfaithful D A
    rw [List.map_append, meanings_append]
    exact List.rel_append ih (.cons ⟨fun ρ _ => heval ρ, hrow⟩ .nil)

/-- What a program builds from sound objects is faithful, whatever ids it draws. -/
theorem Sound.means_build {objects : List (Object S)} (h : Sound objects) {p : Py S}
    (hp : p.Scoped [] objects.length) (next : ℕ) :
    (p.build [] (objects.map Object.term)).Means
      (fun _ => Faithful objects p objects.length) next := by
  refine Build.Means.all fun D => Build.Means.all fun A => ?_
  have hbuild := Lambda.means_build (A := A) p [] (objects.map Object.term) next
    (by rwa [List.length_map]) (by simp)
  refine hbuild.mono fun n t ht => ?_
  obtain ⟨heval, hrow⟩ := ht.2 [] _ (h.known A)
  rw [List.take_of_length_le (Nat.le_of_eq (length_meanings A objects))]
  exact ⟨fun ρ => heval ρ .nil, hrow⟩

end Objects

/-! ### The counter and its lock -/

section Threads
variable {S : Signature}

/-- The ids a thread has taken for its current `Func`. -/
def Thread.ids (t : Thread S) : List ℕ :=
  t.vrids ++ match t.lock with
    | .taken varId => [varId]
    | _ => []

/-- Two threads are not both inside the lock. -/
def Apart (t t' : Thread S) : Prop := t.lock = .outside ∨ t'.lock = .outside

/-- Whatever ids a thread is still to draw, what it builds is faithful. -/
def Meant (objects : List (Object S)) (next : ℕ) (t : Thread S) : Prop :=
  t.uses ≤ objects.length ∧ ∃ start, start ≤ next ∧ (∀ id ∈ t.ids, start ≤ id) ∧
    t.todo.Means (fun _ => Faithful objects t.program t.uses) start

def World.issued (w : World S) : List ℕ := w.funcs.flatten ++ w.threads.flatMap Thread.ids

structure Inv (w : World S) : Prop where
  exclusive : w.threads.Pairwise Apart
  counter : ∀ t ∈ w.threads, ∀ varId, t.lock = .read varId → varId = w.nextVarId
  issued : w.issued.Nodup
  below : ∀ id ∈ w.issued, id < w.nextVarId
  meant : ∀ t ∈ w.threads, Meant w.objects w.nextVarId t
  sound : Sound w.objects

theorem inv_init : Inv (World.init : World S) where
  exclusive := List.Pairwise.nil
  counter := by simp [World.init]
  issued := List.nodup_nil
  below := by simp [World.init, World.issued]
  meant := by simp [World.init]
  sound := .nil

theorem World.issued_mid {w : World S} {before after : List (Thread S)} {t : Thread S}
    (hw : w.threads = before ++ t :: after) :
    w.issued.Perm (w.funcs.flatten ++ t.ids ++ (before ++ after).flatMap Thread.ids) := by
  unfold World.issued
  rw [hw, List.append_assoc]
  exact List.Perm.append_left _ (List.perm_middle.flatMap_right _)

/-- A step of one thread: it keeps out of the others' way, and the ids it has more are new. -/
theorem Inv.update {w w' : World S} (h : Inv w) {before after : List (Thread S)} {t t' : Thread S}
    (hw : w.threads = before ++ t :: after) (hw' : w'.threads = before ++ t' :: after)
    (hobjects : w'.objects = w.objects) (hnext : w.nextVarId ≤ w'.nextVarId)
    (hapart : ∀ x ∈ before ++ after, Apart t' x)
    (hcounter : ∀ x ∈ t' :: (before ++ after), ∀ varId, x.lock = .read varId →
      varId = w'.nextVarId)
    (extra : List ℕ) (hextra : extra.Nodup)
    (hfresh : ∀ id ∈ extra, w.nextVarId ≤ id ∧ id < w'.nextVarId)
    (hids : (w'.funcs.flatten ++ t'.ids).Perm (extra ++ (w.funcs.flatten ++ t.ids)))
    (hmeant : Meant w.objects w'.nextVarId t') : Inv w' := by
  have hmid (x : Thread S) : x ∈ before ++ t' :: after ↔ x ∈ t' :: (before ++ after) :=
    List.perm_middle.mem_iff
  have hrest : ∀ x ∈ before ++ after, x ∈ w.threads := by
    intro x hx
    rw [hw]
    exact List.perm_middle.mem_iff.mpr (List.mem_cons_of_mem _ hx)
  have hissued : w'.issued.Perm (extra ++ w.issued) := by
    calc w'.issued
        List.Perm _ (w'.funcs.flatten ++ t'.ids ++ (before ++ after).flatMap Thread.ids) :=
          World.issued_mid hw'
        List.Perm _ (extra ++ (w.funcs.flatten ++ t.ids) ++ (before ++ after).flatMap Thread.ids) :=
          hids.append_right _
        List.Perm _ (extra ++ w.issued) := by
          rw [List.append_assoc]
          exact List.Perm.append_left _ (World.issued_mid hw).symm
  exact {
    exclusive := by
      rw [hw']
      have hold := h.exclusive
      rw [hw] at hold
      rw [List.pairwise_middle fun hx => hx.symm, List.pairwise_cons] at hold ⊢
      exact ⟨hapart, hold.2⟩
    counter := by
      rw [hw']
      exact fun x hx => hcounter x ((hmid x).mp hx)
    issued := by
      rw [hissued.nodup_iff, List.nodup_append']
      refine ⟨hextra, h.issued, fun id hid hold => ?_⟩
      have hlt := h.below id hold
      have hle := (hfresh id hid).1
      omega
    below := by
      intro id hid
      rcases List.mem_append.mp (hissued.subset hid) with hid | hid
      · exact (hfresh id hid).2
      · exact Nat.lt_of_lt_of_le (h.below id hid) hnext
    meant := by
      intro x hx
      rw [hw'] at hx
      rw [hobjects]
      rcases List.mem_cons.mp ((hmid x).mp hx) with rfl | hx
      · exact hmeant
      · obtain ⟨huses, start, hstart, hids, hmeans⟩ := h.meant x (hrest x hx)
        exact ⟨huses, start, Nat.le_trans hstart hnext, hids, hmeans⟩
    sound := hobjects ▸ h.sound }

/-- The other threads, seen from one inside the lock. -/
theorem Inv.others_outside {w : World S} (h : Inv w) {before after : List (Thread S)} {t : Thread S}
    (hw : w.threads = before ++ t :: after) (ht : t.lock ≠ .outside) :
    ∀ x ∈ before ++ after, x.lock = .outside := by
  have hold := h.exclusive
  rw [hw, List.pairwise_middle fun hx => hx.symm, List.pairwise_cons] at hold
  exact fun x hx => (hold.1 x hx).resolve_left ht

theorem Inv.mem_mid {w : World S} {before after : List (Thread S)} {t : Thread S}
    (hw : w.threads = before ++ t :: after) : t ∈ w.threads := by
  rw [hw]
  simp

theorem Inv.step {w w' : World S} (h : Inv w) (hstep : Step w w') : Inv w' := by
  cases hstep with
  | @start p hp =>
    have hids : (w.threads ++ [Thread.start p w.objects]).flatMap Thread.ids =
        w.threads.flatMap Thread.ids := by
      rw [List.flatMap_append]
      exact List.append_nil _
    have hissued : ({ w with threads := w.threads ++ [Thread.start p w.objects] } :
        World S).issued = w.issued := congrArg (w.funcs.flatten ++ ·) hids
    exact {
      exclusive := by
        refine List.pairwise_append.mpr ⟨h.exclusive, List.pairwise_singleton _ _, ?_⟩
        intro x _ y hy
        rw [List.mem_singleton.mp hy]
        exact .inr rfl
      counter := by
        intro x hx varId hread
        rcases List.mem_append.mp hx with hx | hx
        · exact h.counter x hx varId hread
        · rw [List.mem_singleton.mp hx] at hread
          cases hread
      issued := hissued ▸ h.issued
      below := hissued ▸ h.below
      meant := by
        intro x hx
        rcases List.mem_append.mp hx with hx | hx
        · exact h.meant x hx
        · rw [List.mem_singleton.mp hx]
          exact ⟨Nat.le_refl _, w.nextVarId, Nat.le_refl _, by simp [Thread.ids, Thread.start],
            h.sound.means_build hp _⟩
      sound := h.sound }
  | @acquire before after t arity k hw htodo hlength hfree =>
    have hmem := Inv.mem_mid hw
    have hout (x : Thread S) (hx : x ∈ before ++ after) : x.lock = .outside :=
      hfree x (hw ▸ List.perm_middle.mem_iff.mpr (List.mem_cons_of_mem _ hx))
    have hids : ({ t with lock := .held } : Thread S).ids = t.ids := by
      simp [Thread.ids, hfree t hmem]
    refine h.update hw rfl rfl (Nat.le_refl _) (fun x hx => .inr (hout x hx)) ?_ []
      List.nodup_nil (by simp) (by rw [hids]; exact .refl _) ?_
    · intro x hx varId hread
      rcases List.mem_cons.mp hx with rfl | hx
      · cases hread
      · rw [hout x hx] at hread
        cases hread
    · obtain ⟨huses, start, hstart, hle, hmeans⟩ := h.meant t hmem
      exact ⟨huses, start, hstart, hids ▸ hle, hmeans⟩
  | @read before after t hw hlock =>
    have hmem := Inv.mem_mid hw
    have hout := h.others_outside hw (by simp [hlock])
    have hids : ({ t with lock := .read w.nextVarId } : Thread S).ids = t.ids := by
      simp [Thread.ids, hlock]
    refine h.update hw rfl rfl (Nat.le_refl _) (fun x hx => .inr (hout x hx)) ?_ []
      List.nodup_nil (by simp) (by rw [hids]; exact .refl _) ?_
    · intro x hx varId hread
      rcases List.mem_cons.mp hx with rfl | hx
      · exact (Lock.read.inj hread).symm
      · rw [hout x hx] at hread
        cases hread
    · obtain ⟨huses, start, hstart, hle, hmeans⟩ := h.meant t hmem
      exact ⟨huses, start, hstart, hids ▸ hle, hmeans⟩
  | @increment before after t varId hw hlock =>
    have hmem := Inv.mem_mid hw
    have hout := h.others_outside hw (by simp [hlock])
    have hnext : varId = w.nextVarId := h.counter t hmem varId hlock
    subst hnext
    have hids : ({ t with lock := .taken w.nextVarId } : Thread S).ids = t.ids ++ [w.nextVarId] := by
      simp [Thread.ids, hlock]
    refine h.update hw rfl rfl (Nat.le_succ _) (fun x hx => .inr (hout x hx)) ?_
      [w.nextVarId] (List.nodup_singleton _) (by simp) ?_ ?_
    · intro x hx varId hread
      rcases List.mem_cons.mp hx with rfl | hx
      · cases hread
      · rw [hout x hx] at hread
        cases hread
    · rw [hids, ← List.append_assoc]
      exact List.perm_append_comm
    · obtain ⟨huses, start, hstart, hle, hmeans⟩ := h.meant t hmem
      refine ⟨huses, start, Nat.le_succ_of_le hstart, fun id hid => ?_, hmeans⟩
      rw [hids] at hid
      rcases List.mem_append.mp hid with hid | hid
      · exact hle id hid
      · exact List.mem_singleton.mp hid ▸ hstart
  | @release before after t varId hw hlock =>
    have hmem := Inv.mem_mid hw
    have hout := h.others_outside hw (by simp [hlock])
    have hids : ({ t with lock := .outside, vrids := t.vrids ++ [varId] } : Thread S).ids =
        t.ids := by
      simp [Thread.ids, hlock]
    refine h.update hw rfl rfl (Nat.le_refl _) (fun x _ => .inl rfl) ?_ []
      List.nodup_nil (by simp) (by rw [hids]; exact .refl _) ?_
    · intro x hx varId hread
      rcases List.mem_cons.mp hx with rfl | hx
      · cases hread
      · rw [hout x hx] at hread
        cases hread
    · obtain ⟨huses, start, hstart, hle, hmeans⟩ := h.meant t hmem
      exact ⟨huses, start, hstart, hids ▸ hle, hmeans⟩
  | @made before after t arity k hw htodo hlength hlock =>
    have hmem := Inv.mem_mid hw
    have hids : t.ids = t.vrids := by
      simp [Thread.ids, hlock]
    refine h.update hw rfl rfl (Nat.le_refl _) (fun x _ => .inl hlock) ?_ []
      List.nodup_nil (by simp) ?_ ?_
    · intro x hx varId hread
      rcases List.mem_cons.mp hx with rfl | hx
      · rw [hlock] at hread
        cases hread
      · exact h.counter x (hw ▸ List.perm_middle.mem_iff.mpr (List.mem_cons_of_mem _ hx)) varId
          hread
    · simp [Thread.ids, hlock]
    · obtain ⟨huses, start, hstart, hle, hmeans⟩ := h.meant t hmem
      rw [htodo] at hmeans
      have hissued := (World.issued_mid hw).nodup_iff.mp h.issued
      have hnodup : t.vrids.Nodup := by
        rw [hids] at hissued
        exact (List.nodup_append.mp (List.nodup_append.mp hissued).1).2.1
      refine ⟨huses, w.nextVarId, Nat.le_refl _, by simp [Thread.ids, hlock], ?_⟩
      refine hmeans t.vrids w.nextVarId hlength hnodup (fun id hid => ?_) hstart
      refine ⟨hle id (hids ▸ hid), h.below id ?_⟩
      exact (World.issued_mid hw).symm.subset (by simp [hids, hid])
  | @finish before after t term hw htodo =>
    have hmem := Inv.mem_mid hw
    have hrest (x : Thread S) (hx : x ∈ before ++ after) : x ∈ w.threads :=
      hw ▸ List.perm_middle.mem_iff.mpr (List.mem_cons_of_mem _ hx)
    have hsub : (w.funcs.flatten ++ (before ++ after).flatMap Thread.ids).Sublist
        (w.funcs.flatten ++ t.ids ++ (before ++ after).flatMap Thread.ids) :=
      (List.sublist_append_left _ _).append (List.Sublist.refl _)
    have hexclusive := h.exclusive
    rw [hw, List.pairwise_middle fun hx => hx.symm, List.pairwise_cons] at hexclusive
    obtain ⟨huses, start, _, _, hmeans⟩ := h.meant t hmem
    rw [htodo] at hmeans
    exact {
      exclusive := hexclusive.2
      counter := fun x hx => h.counter x (hrest x hx)
      issued := hsub.nodup ((World.issued_mid hw).nodup_iff.mp h.issued)
      below := fun id hid => h.below id ((World.issued_mid hw).symm.subset (hsub.subset hid))
      meant := by
        intro x hx
        obtain ⟨huses', start', hstart', hle', hmeans'⟩ := h.meant x (hrest x hx)
        refine ⟨?_, start', hstart', hle', hmeans'.mono fun _ t' ht' => ht'.append huses' _⟩
        rw [List.length_append]
        exact Nat.le_add_right_of_le huses'
      sound := .snoc h.sound huses hmeans }

/-! ### Whole runs -/

theorem inv_reachable {w : World S} (h : (machine S).Reachable w) : Inv w :=
  h.invariant (fun _ hw => hw ▸ inv_init) fun _ _ _ _ hinv _ hstep => hinv.step hstep

/-- An object stays faithful as others are built. -/
theorem Sound.faithful {objects : List (Object S)} (h : Sound objects) {o : Object S}
    (ho : o ∈ objects) :
    o.uses ≤ objects.length ∧ Faithful objects o.program o.uses o.term := by
  induction h with
  | nil => cases ho
  | @snoc objects last _ huses hfaithful ih =>
    have hboth : o.uses ≤ objects.length ∧ Faithful objects o.program o.uses o.term := by
      rcases List.mem_append.mp ho with hold | hlast
      · exact ih hold
      · rw [List.mem_singleton.mp hlast]
        exact ⟨huses, hfaithful⟩
    rw [List.length_append]
    exact ⟨Nat.le_add_right_of_le hboth.1, hboth.2.append hboth.1 last⟩

/-- The ids of the functions are disjoint, and every term that has been built binds its variables
where its program does, so it means what its program means. -/
theorem hygienic {w : World S} (h : (machine S).Reachable w) :
    w.funcs.Pairwise List.Disjoint ∧
      ∀ o ∈ w.objects,
        o.term.resolve =
          o.program.denote (binders S) [] ((meanings (binders S) w.objects).take o.uses) 0 ∧
        ∀ (D : Type) (A : Algebra S D) (ρ : ℕ → D),
          o.term.eval A ρ = o.program.denote A [] ((meanings A w.objects).take o.uses) := by
  have hinv := inv_reachable h
  have hfuncs : w.funcs.flatten.Nodup := (List.nodup_append.mp hinv.issued).1
  constructor
  · exact (List.nodup_flatten.mp hfuncs).2
  · intro o ho
    have hfaithful := (hinv.sound.faithful ho).2
    constructor
    · exact congrFun ((hfaithful _ (binders S)).1 _) 0
    · exact fun D A ρ => (hfaithful D A).1 ρ

end Threads

/-! A lambda in a lambda: `lambda x: lambda y: f(x, y)`. -/
section Nested

def plain : Signature := ⟨Unit, ()⟩

def nested : Py plain := .lam 1 (.lam 1 (.op () [.param 1 0, .param 0 0]))

def nestedTerm : Term plain := .func [1] (.func [2] (.op () [.var 1, .var 2]))

/-- The one thread there is makes the `Func` of a lambda with one parameter. -/
theorem reachable_func {S : Signature} {w : World S} {t : Thread S} {k : List ℕ → Build (Term S)}
    (h : (machine S).Reachable w) (hthreads : w.threads = [t]) (htodo : t.todo = .func 1 k)
    (hvrids : t.vrids = []) (hlock : t.lock = .outside) :
    (machine S).Reachable ⟨w.nextVarId + 1, [{ t with todo := k [w.nextVarId], vrids := [] }],
      w.objects, w.funcs ++ [[w.nextVarId]]⟩ := by
  obtain ⟨next, threads, objects, funcs⟩ := w
  obtain ⟨program, uses, todo, vrids, lock⟩ := t
  subst hthreads htodo hvrids hlock
  have hacquire := h.step (i := ()) trivial
    (@Step.acquire S _ [] [] _ 1 k rfl rfl Nat.one_pos (by simp [World.Unlocked]))
  have hread := hacquire.step (i := ()) trivial (@Step.read S _ [] [] _ rfl rfl)
  have hincrement := hread.step (i := ()) trivial (@Step.increment S _ [] [] _ _ rfl rfl)
  have hrelease := hincrement.step (i := ()) trivial (@Step.release S _ [] [] _ _ rfl rfl)
  have hmade := hrelease.step (i := ()) trivial (@Step.made S _ [] [] _ 1 k rfl rfl rfl rfl)
  exact hmade

theorem reachable_nested :
    (machine plain).Reachable ⟨3, [], [⟨nested, 0, nestedTerm⟩], [[1], [2]]⟩ := by
  have hinit : (machine plain).Reachable World.init := .init rfl
  have hscoped : nested.Scoped [] 0 := by
    exact ⟨⟨1, rfl, Nat.one_pos⟩, ⟨1, rfl, Nat.one_pos⟩, trivial⟩
  have hstart := hinit.step (i := ()) trivial (.start hscoped)
  have houter := reachable_func hstart rfl rfl rfl rfl
  have hinner := reachable_func houter rfl rfl rfl rfl
  have hfinish := hinner.step (i := ()) trivial (@Step.finish plain _ [] [] _ _ rfl rfl)
  exact hfinish

theorem hygienic_nested :
    nestedTerm.resolve = .lam 1 (.lam 1 (.op () [.bound 0 0, .bound 1 0])) :=
  ((hygienic reachable_nested).2 ⟨nested, 0, nestedTerm⟩ List.mem_cons_self).1

end Nested
end RethinkDB.Ast.Lambda
