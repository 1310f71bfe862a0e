import Mathlib.Logic.Relation

/-! Labelled transition systems, the states their runs reach, and the invariant rule. -/
namespace RethinkDB.Lib

structure Machine (σ ι : Type*) where
  init : σ → Prop
  step : σ → ι → σ → Prop

namespace Machine
variable {σ ι : Type*} (M : Machine σ ι)

/-- Reached by a run each of whose steps `ok` allows, judged in the state before it. -/
inductive ReachedBy (ok : σ → ι → Prop) : σ → Prop
  | init {s} : M.init s → ReachedBy ok s
  | step {s i s'} : ReachedBy ok s → ok s i → M.step s i s' → ReachedBy ok s'

def Reachable : σ → Prop := M.ReachedBy fun _ _ => True

/-- Some steps lead from one state to the other. -/
def Leads : σ → σ → Prop := Relation.ReflTransGen fun s s' => ∃ i, M.step s i s'

variable {M}

theorem Leads.single {s s' : σ} {i : ι} (h : M.step s i s') : M.Leads s s' :=
  Relation.ReflTransGen.single ⟨i, h⟩

theorem Leads.tail {s s' s'' : σ} {i : ι} (h : M.Leads s s') (h' : M.step s' i s'') : M.Leads s s'' :=
  Relation.ReflTransGen.tail h ⟨i, h'⟩

theorem Leads.trans {s s' s'' : σ} (h : M.Leads s s') (h' : M.Leads s' s'') : M.Leads s s'' :=
  Relation.ReflTransGen.trans h h'

theorem Reachable.leads {s s' : σ} (h : M.Reachable s) (h' : M.Leads s s') : M.Reachable s' := by
  induction h' with
  | refl => exact h
  | tail _ hstep ih =>
    obtain ⟨i, hi⟩ := hstep
    exact .step ih trivial hi

theorem ReachedBy.mono {ok ok' : σ → ι → Prop} (hok : ∀ s i, ok s i → ok' s i) {s : σ}
    (h : M.ReachedBy ok s) : M.ReachedBy ok' s := by
  induction h with
  | init hs => exact .init hs
  | step _ hi hstep ih => exact .step ih (hok _ _ hi) hstep

/-- The state after a list of steps, when `run` takes them one by one. -/
theorem ReachedBy.run {ok : σ → ι → Prop} {step : σ → ι → Option σ} {run : σ → List ι → Option σ}
    (hnil : ∀ s, run s [] = some s)
    (hcons : ∀ s i is, run s (i :: is) = (step s i).bind fun s' => run s' is)
    (hstep : ∀ s i s', step s i = some s' → M.step s i s') {s s' : σ} {is : List ι}
    (hok : ∀ i ∈ is, ∀ s, ok s i) (h : M.ReachedBy ok s) (hrun : run s is = some s') :
    M.ReachedBy ok s' := by
  induction is generalizing s with
  | nil =>
    rw [hnil] at hrun
    cases hrun
    exact h
  | cons i is ih =>
    rw [hcons] at hrun
    obtain ⟨s₁, hfirst, hrest⟩ := Option.bind_eq_some_iff.mp hrun
    refine ih (fun i hi => hok i (List.mem_cons_of_mem _ hi)) ?_ hrest
    exact .step h (hok i List.mem_cons_self s) (hstep _ _ _ hfirst)

/-- The invariant rule. A step may use that its source is reached. -/
theorem ReachedBy.invariant {ok : σ → ι → Prop} {I : σ → Prop} (hinit : ∀ s, M.init s → I s)
    (hstep : ∀ s i s', M.ReachedBy ok s → I s → ok s i → M.step s i s' → I s') {s : σ}
    (h : M.ReachedBy ok s) : I s := by
  induction h with
  | init hs => exact hinit _ hs
  | step hs hi hst ih => exact hstep _ _ _ hs ih hi hst

end Machine
end RethinkDB.Lib
