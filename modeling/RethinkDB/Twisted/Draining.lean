import Mathlib.Data.List.Nodup
import RethinkDB.Twisted.Instance

/-! Which Deferreds a connection that ends has fired. -/
namespace RethinkDB.Twisted.Instance
open RethinkDB.Lib

/-- A loop over `_user_queries` that is going to end. -/
def Frame.Looping : Frame → Prop
  | .queries _ _ _ changed => changed = false
  | _ => False

instance (frame : Frame) : Decidable frame.Looping := by
  unfold Frame.Looping
  split <;> infer_instance

/-- Nothing ends the connection while a Deferred is pending, and none is registered that cannot be
fired any more: by a query once a `close` has ended, by a `close` with `noreply_wait` once another
has ended or the transport is lost, or inside the loop of another one, which drops it. -/
def Timely (w : World) : Event → Prop
  | .connectionLost => ∀ d < w.deferreds, d ∈ w.fired
  | .runQuery => w.hasInstance = true → w.isOpen = true → w.closed = false
  | .close true =>
    w.hasInstance = true → w.closed = false ∧ w.lost = false ∧ ∀ frame ∈ w.stack, ¬frame.Looping
  | _ => True

/-! ### The stack -/

def Frame.closes : Frame → Bool
  | .cursors _ | .queries _ _ _ _ => true
  | _ => false

def Frame.token : Frame → Option ℤ
  | .cursors noreplyWait | .queries noreplyWait _ _ _ => noreplyWait
  | _ => none

/-- What holds of a loop: it comes to all that are pending, unless its dict has changed. -/
def Frame.Covers (userQueries : List (ℤ × ℕ)) (fired : List ℕ) : Frame → Prop
  | .queries _ rest true false => ∀ entry ∈ userQueries, entry.2 ∈ fired ∨ entry ∈ rest
  | .queries _ _ false false => userQueries = []
  | _ => True

/-- The Deferreds that a loop still comes to. -/
def Frame.rest : Frame → List (ℤ × ℕ)
  | .queries _ rest _ _ => rest
  | _ => []

def Frame.attached : Frame → Bool
  | .queries _ _ attached _ => attached
  | _ => true

/-- Above a `close` that is to wait the stack has functions of the user only, and below it no loop
that is going to end. -/
def Waiting (stack : List Frame) : Prop :=
  ∀ before frame after, stack = before ++ frame :: after → frame.token.isSome →
    (∀ x ∈ before, x = .user) ∧ ∀ x ∈ after, ¬x.Looping

structure Inv (w : World) : Prop where
  once : w.fired.Nodup
  made : ∀ d ∈ w.fired, d < w.deferreds
  below : ∀ entry ∈ w.userQueries, entry.2 < w.deferreds
  restBelow : ∀ frame ∈ w.stack, ∀ entry ∈ frame.rest, entry.2 < w.deferreds
  pending : ∀ d < w.deferreds, d ∉ w.fired → ∃ token, (token, d) ∈ w.userQueries
  covers : ∀ frame ∈ w.stack, frame.Covers w.userQueries w.fired
  ended : w.lost = true ∨ w.closed = true → ∀ d < w.deferreds, d ∈ w.fired
  lost : w.lost = true → w.isOpen = false
  idle : w.closing = false → ∀ x ∈ w.stack, x.closes = false
  first : w.hasInstance = true → w.stack.countP Frame.closes ≤ 1
  attached : w.hasInstance = true → ∀ frame ∈ w.stack, frame.attached = true
  waiting : Waiting w.stack
  waits : (∃ frame ∈ w.stack, frame.token.isSome) →
    w.hasInstance = false ∧ w.closers = [] ∧ w.closed = false ∧ w.lost = false
  closers : w.closers ≠ [] → w.hasInstance = false
  keys : (w.userQueries.map Prod.fst).Nodup
  issued : ∀ entry ∈ w.userQueries, entry.1 < w.nextToken
  handled : ∀ token, .handle token ∈ w.stack →
    token < w.nextToken ∧ ∀ entry ∈ w.userQueries, entry.1 = token → entry.2 ∈ w.fired
  reserved : ∀ frame ∈ w.stack, ∀ token, frame.token = some token →
    token < w.nextToken ∧ ∀ token', .handle token' ∈ w.stack → token' < token
  closer : ∀ c ∈ w.closers, ∀ d < w.deferreds, d ∉ w.fired → d = c

theorem inv_init : Inv init := by
  constructor <;> simp [init, Waiting]

theorem Waiting.tail {frame : Frame} {stack : List Frame} (h : Waiting (frame :: stack)) :
    Waiting stack := by
  intro before x after heq hx
  obtain ⟨hbefore, hafter⟩ := h (frame :: before) x after (by rw [heq]; rfl) hx
  exact ⟨fun y hy => hbefore y (List.mem_cons_of_mem _ hy), hafter⟩

/-- A frame on top that does not wait. -/
theorem Waiting.push {frame : Frame} {stack : List Frame} (h : Waiting stack)
    (hframe : frame.token = none)
    (huser : frame = .user ∨ ∀ x ∈ stack, x.token = none) : Waiting (frame :: stack) := by
  intro before x after heq hx
  cases before with
  | nil =>
    cases heq
    rw [hframe] at hx
    cases hx
  | cons y before =>
    cases heq
    obtain ⟨hbefore, hafter⟩ := h before x after rfl hx
    refine ⟨fun z hz => ?_, hafter⟩
    rcases List.mem_cons.mp hz with rfl | hz
    · refine huser.resolve_right fun hnone => ?_
      rw [hnone x (by simp)] at hx
      cases hx
    · exact hbefore z hz

/-- A `close` that is to wait comes on top. -/
theorem Waiting.push_close {frame : Frame} {stack : List Frame}
    (hstack : ∀ x ∈ stack, ¬x.Looping) (hnone : ∀ x ∈ stack, x.token = none) :
    Waiting (frame :: stack) := by
  intro before x after heq hx
  cases before with
  | nil =>
    cases heq
    exact ⟨by simp, hstack⟩
  | cons y before =>
    cases heq
    rw [hnone x (by simp)] at hx
    cases hx

/-- Below anything but a function of the user no `close` is to wait. -/
theorem Waiting.token_below {frame : Frame} {stack : List Frame} (h : Waiting (frame :: stack))
    (hframe : frame ≠ .user) : ∀ x ∈ stack, x.token = none := by
  intro x hx
  obtain ⟨before, after, rfl⟩ := List.append_of_mem hx
  by_contra htoken
  have hsome : x.token.isSome := Option.isSome_iff_ne_none.mpr htoken
  exact hframe ((h (frame :: before) x after rfl hsome).1 frame List.mem_cons_self)

/-- Frames that go on as they are, or change less. -/
theorem Waiting.map {stack : List Frame} (h : Waiting stack) {f : Frame → Frame}
    (htoken : ∀ x, (f x).token = x.token) (huser : f .user = .user)
    (hloop : ∀ x, (f x).Looping → x.Looping) : Waiting (stack.map f) := by
  intro before x after heq hx
  obtain ⟨before', rest, rfl, rfl, hrest⟩ := List.map_eq_append_iff.mp heq
  obtain ⟨x', after', rfl, rfl, rfl⟩ := List.map_eq_cons_iff.mp hrest
  rw [htoken] at hx
  obtain ⟨hbefore, hafter⟩ := h before' x' after' rfl hx
  constructor
  · intro y hy
    obtain ⟨y', hy', rfl⟩ := List.mem_map.mp hy
    rw [hbefore y' hy', huser]
  · intro y hy hlooping
    obtain ⟨y', hy', rfl⟩ := List.mem_map.mp hy
    exact hafter y' hy' (hloop y' hlooping)

theorem waiting_of_none {stack : List Frame} (h : ∀ x ∈ stack, x.token = none) : Waiting stack := by
  intro before x after heq hx
  rw [h x (by rw [heq]; simp)] at hx
  cases hx

/-! ### The dict of a loop -/

namespace Frame

@[simp] theorem rest_grow (x : Frame) : x.grow.rest = x.rest := by
  unfold grow
  split <;> rfl

@[simp] theorem token_grow (x : Frame) : x.grow.token = x.token := by
  unfold grow
  split <;> rfl

@[simp] theorem closes_grow (x : Frame) : x.grow.closes = x.closes := by
  unfold grow
  split <;> rfl

@[simp] theorem attached_grow (x : Frame) : x.grow.attached = x.attached := by
  unfold grow
  split <;> rfl

theorem grow_eq_handle {x : Frame} {token : ℤ} : x.grow = .handle token ↔ x = .handle token := by
  unfold grow
  split <;> simp

/-- No loop that goes over `_user_queries` is going to end. -/
theorem covers_grow {x : Frame} (hx : x.attached = true) (userQueries : List (ℤ × ℕ))
    (fired : List ℕ) : x.grow.Covers userQueries fired := by
  cases x with
  | queries noreplyWait rest attached changed =>
    cases attached with
    | false => cases hx
    | true => trivial
  | _ => trivial

@[simp] theorem rest_detach (x : Frame) : x.detach.rest = x.rest := by
  unfold detach
  split <;> rfl

@[simp] theorem token_detach (x : Frame) : x.detach.token = x.token := by
  unfold detach
  split <;> rfl

@[simp] theorem closes_detach (x : Frame) : x.detach.closes = x.closes := by
  unfold detach
  split <;> rfl

theorem detach_eq_handle {x : Frame} {token : ℤ} :
    x.detach = .handle token ↔ x = .handle token := by
  unfold detach
  split <;> simp

theorem covers_of_not_looping {x : Frame} (hx : ¬x.Looping) (userQueries : List (ℤ × ℕ))
    (fired : List ℕ) : x.detach.grow.Covers userQueries fired := by
  cases x with
  | queries noreplyWait rest attached changed =>
    cases changed with
    | false => exact absurd rfl hx
    | true => trivial
  | _ => trivial

theorem covers_detach (x : Frame) (fired : List ℕ) : x.detach.Covers [] fired := by
  cases x with
  | queries noreplyWait rest attached changed => cases changed <;> trivial
  | _ => trivial

end Frame

theorem countP_map_closes {f : Frame → Frame} (hf : ∀ x, (f x).closes = x.closes)
    (stack : List Frame) : (stack.map f).countP Frame.closes = stack.countP Frame.closes := by
  rw [List.countP_map]
  congr 1
  exact funext hf

theorem handle_mem_map {f : Frame → Frame} {token : ℤ}
    (hf : ∀ x, f x = .handle token ↔ x = .handle token) {stack : List Frame} :
    .handle token ∈ stack.map f ↔ .handle token ∈ stack := by
  constructor
  · intro h
    obtain ⟨y, hy, heq⟩ := List.mem_map.mp h
    rwa [← (hf y).mp heq]
  · exact fun h => List.mem_map.mpr ⟨_, h, (hf _).mpr rfl⟩

theorem forall_mem_map {f : Frame → Frame} {p : Frame → Prop} {stack : List Frame}
    (h : ∀ x ∈ stack, p (f x)) : ∀ x ∈ stack.map f, p x := by
  intro x hx
  obtain ⟨y, hy, rfl⟩ := List.mem_map.mp hx
  exact h y hy

/-! ### One step -/

namespace Inv
variable {w w' : World}

/-- The frame on top is done. -/
theorem pop (h : Inv w) {frame : Frame} {stack : List Frame} (hstack : w.stack = frame :: stack) :
    Inv { w with stack } := by
  have hmem : ∀ x ∈ stack, x ∈ w.stack := by
    intro x hx
    rw [hstack]
    exact List.mem_cons_of_mem _ hx
  have hwaiting := h.waiting
  have hfirst := h.first
  rw [hstack] at hwaiting hfirst
  exact { h with
    restBelow := fun x hx => h.restBelow x (hmem x hx)
    covers := fun x hx => h.covers x (hmem x hx)
    idle := fun hclosing x hx => h.idle hclosing x (hmem x hx)
    first := by
      intro hinstance
      have hle := hfirst hinstance
      rw [List.countP_cons] at hle
      exact Nat.le_trans (Nat.le_add_right _ _) hle
    attached := fun hinstance x hx => h.attached hinstance x (hmem x hx)
    waiting := hwaiting.tail
    waits := fun ⟨x, hx, htoken⟩ => h.waits ⟨x, hmem x hx, htoken⟩
    handled := fun token htoken => h.handled token (hmem _ htoken)
    reserved := fun x hx token htoken =>
      ⟨(h.reserved x (hmem x hx) token htoken).1,
        fun token' htoken' => (h.reserved x (hmem x hx) token htoken).2 token' (hmem _ htoken')⟩ }

/-- A frame that is no `close` comes on top. -/
theorem push_plain (h : Inv w) (frame : Frame) (hrest : frame.rest = [])
    (hcovers : frame.Covers w.userQueries w.fired) (hcloses : frame.closes = false)
    (hattached : frame.attached = true) (htoken : frame.token = none)
    (huser : frame = .user ∨ w.stack = [])
    (hhandle : ∀ token, frame = .handle token → token < w.nextToken ∧
      ∀ entry ∈ w.userQueries, entry.1 = token → entry.2 ∈ w.fired) :
    Inv { w with stack := frame :: w.stack } := by
  exact { h with
    restBelow := by
      intro x hx
      rcases List.mem_cons.mp hx with rfl | hx
      · simp [hrest]
      · exact h.restBelow x hx
    covers := by
      intro x hx
      rcases List.mem_cons.mp hx with rfl | hx
      · exact hcovers
      · exact h.covers x hx
    idle := by
      intro hclosing x hx
      rcases List.mem_cons.mp hx with rfl | hx
      · exact hcloses
      · exact h.idle hclosing x hx
    first := by
      intro hinstance
      rw [List.countP_cons_of_neg (by simp [hcloses])]
      exact h.first hinstance
    attached := by
      intro hinstance x hx
      rcases List.mem_cons.mp hx with rfl | hx
      · exact hattached
      · exact h.attached hinstance x hx
    waiting := h.waiting.push htoken (huser.imp_right fun hnil => by simp [hnil])
    waits := by
      rintro ⟨x, hx, hsome⟩
      rcases List.mem_cons.mp hx with rfl | hx
      · simp [htoken] at hsome
      · exact h.waits ⟨x, hx, hsome⟩
    handled := by
      intro token hx
      rcases List.mem_cons.mp hx with hx | hx
      · exact hhandle token hx.symm
      · exact h.handled token hx
    reserved := by
      intro x hx token hsome
      rcases List.mem_cons.mp hx with rfl | hx
      · rw [htoken] at hsome
        cases hsome
      · obtain ⟨hlt, hhandles⟩ := h.reserved x hx token hsome
        refine ⟨hlt, fun token' htoken' => ?_⟩
        rcases List.mem_cons.mp htoken' with hframe | htoken'
        · rcases huser with huser | hnil
          · rw [huser] at hframe
            cases hframe
          · rw [hnil] at hx
            cases hx
        · exact hhandles token' htoken' }

theorem push_user (h : Inv w) : Inv { w with stack := .user :: w.stack } :=
  h.push_plain .user rfl trivial rfl rfl rfl (.inl rfl) (by simp)

/-- A Deferred fires. -/
theorem settle (h : Inv w) {d : ℕ} (hd : d < w.deferreds) (hnot : d ∉ w.fired) :
    Inv { w with fired := w.fired ++ [d], closed := w.closed || d ∈ w.closers } := by
  have hmono : ∀ {d'}, d' ∈ w.fired → d' ∈ w.fired ++ [d] := fun hd' => List.mem_append_left _ hd'
  exact { h with
    once := by
      refine List.nodup_append.mpr ⟨h.once, List.nodup_singleton _, ?_⟩
      intro d' hd' d'' hd''
      rw [List.mem_singleton.mp hd'']
      rintro rfl
      exact hnot hd'
    made := by
      intro d' hd'
      rcases List.mem_append.mp hd' with hd' | hd'
      · exact h.made d' hd'
      · rwa [List.mem_singleton.mp hd']
    pending := fun d' hlt hnot' => h.pending d' hlt fun hd' => hnot' (hmono hd')
    covers := by
      intro x hx
      have hcovers := h.covers x hx
      unfold Frame.Covers at hcovers ⊢
      split
      · exact fun entry hentry => (hcovers entry hentry).imp_left hmono
      · exact hcovers
      · trivial
    ended := by
      intro hended d' hlt
      by_cases hclosed : w.lost = true ∨ w.closed = true
      · exact hmono (h.ended hclosed d' hlt)
      · have hcloser : d ∈ w.closers := by
          simp_all
        by_cases hd' : d' ∈ w.fired
        · exact hmono hd'
        · simp [h.closer d hcloser d' hlt hd']
    waits := by
      intro hframe
      obtain ⟨hinstance, hclosers, hclosed, hlost⟩ := h.waits hframe
      exact ⟨hinstance, hclosers, by simp [hclosed, hclosers], hlost⟩
    closer := fun c hc d' hlt hnot' => h.closer c hc d' hlt fun hd' => hnot' (hmono hd')
    handled := fun token htoken =>
      ⟨(h.handled token htoken).1, fun entry hentry heq =>
        hmono ((h.handled token htoken).2 entry hentry heq)⟩ }

/-- A `close` starts. -/
theorem close (h : Inv w) {noreplyWait : Option ℤ}
    (hfirst : w.hasInstance = true → w.stack.countP Frame.closes = 0)
    (hnone : ∀ x ∈ w.stack, x.token = none)
    (hwaits : noreplyWait.isSome → w.hasInstance = false ∧ w.closers = [] ∧ w.closed = false ∧
      w.lost = false ∧ ∀ x ∈ w.stack, ¬x.Looping)
    (htoken : ∀ token, noreplyWait = some token → token < w.nextToken ∧
      ∀ token', .handle token' ∈ w.stack → token' < token) : Inv (w.close noreplyWait) := by
  exact { h with
    restBelow := by
      intro x hx
      rcases List.mem_cons.mp hx with rfl | hx
      · simp [Frame.rest]
      · exact h.restBelow x hx
    covers := by
      intro x hx
      rcases List.mem_cons.mp hx with rfl | hx
      · trivial
      · exact h.covers x hx
    idle := by
      intro hclosing
      cases hclosing
    first := by
      intro hinstance
      show (Frame.cursors noreplyWait :: w.stack).countP Frame.closes ≤ 1
      rw [List.countP_cons, hfirst hinstance]
      simp [Frame.closes]
    attached := by
      intro hinstance x hx
      rcases List.mem_cons.mp hx with rfl | hx
      · rfl
      · exact h.attached hinstance x hx
    waiting := by
      cases noreplyWait with
      | none => exact h.waiting.push rfl (.inr hnone)
      | some token => exact Waiting.push_close (hwaits rfl).2.2.2.2 hnone
    waits := by
      rintro ⟨x, hx, hsome⟩
      rcases List.mem_cons.mp hx with rfl | hx
      · obtain ⟨hinstance, hclosers, hclosed, hlost, _⟩ := hwaits hsome
        exact ⟨hinstance, hclosers, hclosed, hlost⟩
      · rw [hnone x hx] at hsome
        cases hsome
    handled := by
      intro token hx
      rcases List.mem_cons.mp hx with hx | hx
      · cases hx
      · exact h.handled token hx
    reserved := by
      intro x hx token hsome
      rcases List.mem_cons.mp hx with rfl | hx
      · obtain ⟨hlt, hhandles⟩ := htoken token hsome
        refine ⟨hlt, fun token' htoken' => ?_⟩
        rcases List.mem_cons.mp htoken' with hx | htoken'
        · cases hx
        · exact hhandles token' htoken'
      · rw [hnone x hx] at hsome
        cases hsome }

theorem token_none_of_plain {x : Frame} (hx : x.closes = false) : x.token = none := by
  cases x <;> first | rfl | cases hx

/-- The instance closes itself, unless it is closing. -/
theorem raised (h : Inv w) : Inv w.raised := by
  unfold World.raised
  split
  · exact h
  · rename_i hclosing
    have hplain := h.idle (Bool.eq_false_iff.mpr hclosing)
    refine h.close (fun _ => ?_) (fun x hx => token_none_of_plain (hplain x hx)) (by simp) (by simp)
    exact List.countP_eq_zero.mpr fun x hx => by simp [hplain x hx]

/-- Another token is issued. -/
theorem issue (h : Inv w) : Inv { w with nextToken := w.nextToken + 1 } where
  __ := h
  issued := fun entry hentry => Int.lt_trans (h.issued entry hentry) (Int.lt_succ _)
  handled := fun token htoken =>
    ⟨Int.lt_trans (h.handled token htoken).1 (Int.lt_succ _), (h.handled token htoken).2⟩
  reserved := fun x hx token htoken =>
    ⟨Int.lt_trans (h.reserved x hx token htoken).1 (Int.lt_succ _),
      (h.reserved x hx token htoken).2⟩

theorem closers_nil (h : Inv w) (hinstance : w.hasInstance = true) : w.closers = [] := by
  by_contra hne
  have hgone := h.closers hne
  rw [hinstance] at hgone
  cases hgone

theorem token_none (h : Inv w) (hinstance : w.hasInstance = true) :
    ∀ x ∈ w.stack, x.token = none := by
  intro x hx
  cases htoken : x.token with
  | none => rfl
  | some token =>
    obtain ⟨hnot, _⟩ := h.waits ⟨x, hx, by rw [htoken]; rfl⟩
    rw [hinstance] at hnot
    cases hnot

theorem connClose (h : Inv w) {noreplyWait : Bool} (htimely : Timely w (.close noreplyWait)) :
    Inv (w.connClose noreplyWait) := by
  unfold World.connClose
  split
  · rename_i hinstance
    have hissue := h.issue
    have hgone : Inv { w with hasInstance := false, nextToken := w.nextToken + 1 } := {
      hissue with
      first := by simp
      attached := by simp
      waits := fun hframe => ⟨rfl, (h.waits hframe).2⟩
      closers := fun _ => rfl }
    have hnone := h.token_none hinstance
    refine hgone.close (by simp) hnone (fun hsome => ?_) fun token htoken => ?_
    · cases noreplyWait with
      | false => cases hsome
      | true =>
        obtain ⟨hclosed, hlost, hloops⟩ := htimely hinstance
        exact ⟨rfl, h.closers_nil hinstance, hclosed, hlost, hloops⟩
    · cases noreplyWait with
      | false => cases htoken
      | true =>
        cases htoken
        refine ⟨?_, fun token' htoken' => (h.handled token' htoken').1⟩
        show w.nextToken < w.nextToken + 1
        omega
  · exact h

/-- A Deferred is registered while nothing has ended. -/
theorem register (h : Inv w) (token : ℤ) (hclosed : w.closed = false) (hlost : w.lost = false)
    (hnone : ∀ x ∈ w.stack, x.token = none) (hclosers : w.closers = [])
    (hcovers : ∀ x ∈ w.stack,
      x.grow.Covers (w.userQueries ++ [(token, w.deferreds)]) w.fired)
    (htoken : token < w.nextToken) (hkeys : ∀ entry ∈ w.userQueries, entry.1 ≠ token)
    (hhandles : ∀ token', .handle token' ∈ w.stack → token' ≠ token) : Inv (w.register token) := by
  have hnone' : ∀ x ∈ w.stack.map Frame.grow, x.token = none :=
    forall_mem_map fun x hx => by
      rw [Frame.token_grow]
      exact hnone x hx
  have hentries {entry : ℤ × ℕ} (hentry : entry ∈ w.userQueries ++ [(token, w.deferreds)]) :
      entry ∈ w.userQueries ∨ entry = (token, w.deferreds) :=
    (List.mem_append.mp hentry).imp_right List.mem_singleton.mp
  exact {
    once := h.once
    made := fun d hd => Nat.lt_succ_of_lt (h.made d hd)
    below := by
      intro entry hentry
      rcases hentries hentry with hentry | rfl
      · exact Nat.lt_succ_of_lt (h.below entry hentry)
      · exact Nat.lt_succ_self _
    restBelow := forall_mem_map fun x hx entry hentry => by
      rw [Frame.rest_grow] at hentry
      exact Nat.lt_succ_of_lt (h.restBelow x hx entry hentry)
    pending := by
      intro d hd hnot
      by_cases hnew : d = w.deferreds
      · exact ⟨token, by simp [World.register, hnew]⟩
      · have hlt : d < w.deferreds + 1 := hd
        obtain ⟨token', htoken'⟩ := h.pending d (by omega) hnot
        exact ⟨token', List.mem_append_left _ htoken'⟩
    covers := forall_mem_map hcovers
    ended := by
      intro hended
      simp [World.register, hlost, hclosed] at hended
    lost := h.lost
    idle := fun hclosing => forall_mem_map fun x hx => by
      rw [Frame.closes_grow]
      exact h.idle hclosing x hx
    first := fun hinstance => (countP_map_closes Frame.closes_grow _).symm ▸ h.first hinstance
    attached := fun hinstance => forall_mem_map fun x hx => by
      rw [Frame.attached_grow]
      exact h.attached hinstance x hx
    waiting := waiting_of_none hnone'
    waits := by
      rintro ⟨x, hx, hsome⟩
      rw [hnone' x hx] at hsome
      cases hsome
    closers := h.closers
    closer := by
      intro c hc
      have hc : c ∈ w.closers := hc
      rw [hclosers] at hc
      cases hc
    keys := by
      show ((w.userQueries ++ [(token, w.deferreds)]).map Prod.fst).Nodup
      rw [List.map_append, List.nodup_append]
      refine ⟨h.keys, List.nodup_singleton _, ?_⟩
      intro key hkey key' hkey'
      obtain ⟨entry, hentry, rfl⟩ := List.mem_map.mp hkey
      rw [List.mem_singleton.mp hkey']
      exact hkeys entry hentry
    issued := by
      intro entry hentry
      rcases hentries hentry with hentry | rfl
      · exact h.issued entry hentry
      · exact htoken
    handled := by
      intro token' hx
      have hmem := (handle_mem_map fun _ => Frame.grow_eq_handle).mp hx
      obtain ⟨hlt, hfired⟩ := h.handled token' hmem
      refine ⟨hlt, fun entry hentry heq => ?_⟩
      rcases hentries hentry with hentry | rfl
      · exact hfired entry hentry heq
      · exact absurd heq.symm (hhandles token' hmem)
    reserved := by
      intro x hx token' hsome
      rw [hnone' x hx] at hsome
      cases hsome }

/-- A query is registered, through the open `Connection`. -/
theorem runQuery (h : Inv w) (htimely : Timely w .runQuery) : Inv w.runQuery := by
  unfold World.runQuery
  split
  · rename_i hopen
    obtain ⟨hinstance, hopen⟩ := hopen
    have hlost : w.lost = false := by
      by_contra hlost
      have hshut := h.lost (by simpa using hlost)
      rw [hopen] at hshut
      cases hshut
    refine h.issue.register _ (htimely hinstance hopen) hlost (h.token_none hinstance)
      (h.closers_nil hinstance) (fun x hx => Frame.covers_grow (h.attached hinstance x hx) _ _)
      (Int.lt_succ _) (fun entry hentry => ?_) fun token htoken => ?_
    · exact Int.ne_of_lt (h.issued entry hentry)
    · exact Int.ne_of_lt (h.handled token htoken).1
  · exact h

/-- The end of a `close` whose loop came to all that were pending. -/
theorem endClose (h : Inv w) {noreplyWait : Option ℤ} (hall : ∀ d < w.deferreds, d ∈ w.fired)
    (hnone : ∀ x ∈ w.stack, x.token = none)
    (hplain : w.hasInstance = true → ∀ x ∈ w.stack, x.closes = false)
    (hwaits : noreplyWait.isSome → w.hasInstance = false ∧ w.closers = [] ∧ w.closed = false ∧
      w.lost = false ∧ ∀ x ∈ w.stack, ¬x.Looping)
    (htoken : ∀ token, noreplyWait = some token → token < w.nextToken ∧
      ∀ token', .handle token' ∈ w.stack → token' < token) : Inv (w.endClose noreplyWait) := by
  have hnone' : ∀ x ∈ w.stack.map Frame.detach, x.token = none :=
    forall_mem_map fun x hx => by
      rw [Frame.token_detach]
      exact hnone x hx
  have hempty : Inv { w with userQueries := [], stack := w.stack.map Frame.detach } := { h with
    below := by simp
    restBelow := forall_mem_map fun x hx entry hentry => by
      rw [Frame.rest_detach] at hentry
      exact h.restBelow x hx entry hentry
    pending := fun d hd hnot => absurd (hall d hd) hnot
    covers := forall_mem_map fun x _ => Frame.covers_detach x _
    idle := fun hclosing => forall_mem_map fun x hx => by
      rw [Frame.closes_detach]
      exact h.idle hclosing x hx
    first := fun hinstance => (countP_map_closes Frame.closes_detach _).symm ▸ h.first hinstance
    attached := fun hinstance => forall_mem_map fun x hx => by
      have hcloses := hplain hinstance x hx
      cases x with
      | queries => cases hcloses
      | _ => rfl
    waiting := waiting_of_none hnone'
    waits := by
      rintro ⟨x, hx, hsome⟩
      rw [hnone' x hx] at hsome
      cases hsome
    keys := List.nodup_nil
    issued := by simp
    handled := by
      intro token hx
      exact ⟨(h.handled token ((handle_mem_map fun _ => Frame.detach_eq_handle).mp hx)).1, by simp⟩
    reserved := by
      intro x hx token hsome
      rw [hnone' x hx] at hsome
      cases hsome }
  cases noreplyWait with
  | none =>
    exact { hempty with
      ended := fun _ => hall
      waits := by
        rintro ⟨x, hx, hsome⟩
        rw [hnone' x hx] at hsome
        cases hsome }
  | some token =>
    obtain ⟨hinstance, hclosers, hclosed, hlost, hloops⟩ := hwaits rfl
    obtain ⟨hlt, hhandles⟩ := htoken token rfl
    have hregistered := hempty.register token hclosed hlost hnone' hclosers
      (forall_mem_map fun x hx => Frame.covers_of_not_looping (hloops x hx) _ _) hlt (by simp)
      fun token' hx =>
        Int.ne_of_lt (hhandles token' ((handle_mem_map fun _ => Frame.detach_eq_handle).mp hx))
    exact { hregistered with
      waits := by
        rintro ⟨x, hx, hsome⟩
        rw [forall_mem_map (f := Frame.grow) (p := fun x => x.token = none) (fun y hy => by
          rw [Frame.token_grow]
          exact hnone' y hy) x hx] at hsome
        cases hsome
      closers := fun _ => hinstance
      closer := by
        intro c hc d hd hnot
        have hc : c ∈ w.closers ++ [w.deferreds] := hc
        rw [hclosers, List.nil_append, List.mem_singleton] at hc
        have hd : d < w.deferreds + 1 := hd
        have hnot : d ∉ w.fired := hnot
        by_contra hne
        exact hnot (hall d (by omega)) }

/-- The `close` on top goes on. -/
theorem replace (h : Inv w) {frame frame' : Frame} {stack : List Frame}
    (hstack : w.stack = frame :: stack) (hcloses : frame.closes = true)
    (hcloses' : frame'.closes = true) (htoken : frame'.token = frame.token)
    (hrest : ∀ entry ∈ frame'.rest, entry.2 < w.deferreds)
    (hcovers : frame'.Covers w.userQueries w.fired)
    (hattached : frame.attached = true → frame'.attached = true) :
    Inv { w with stack := frame' :: stack } := by
  have hpop := h.pop hstack
  have hmem : frame ∈ w.stack := by
    rw [hstack]
    exact List.mem_cons_self
  have hwaiting := h.waiting
  rw [hstack] at hwaiting
  have hbelow : ∀ x ∈ stack, x.token = none := hwaiting.token_below (by rintro rfl; cases hcloses)
  have hhandle {token : ℤ} (hx : .handle token ∈ frame' :: stack) : .handle token ∈ stack := by
    rcases List.mem_cons.mp hx with hx | hx
    · rw [← hx] at hcloses'
      cases hcloses'
    · exact hx
  exact { hpop with
    restBelow := by
      intro x hx
      rcases List.mem_cons.mp hx with rfl | hx
      · exact hrest
      · exact hpop.restBelow x hx
    covers := by
      intro x hx
      rcases List.mem_cons.mp hx with rfl | hx
      · exact hcovers
      · exact hpop.covers x hx
    idle := by
      intro hclosing
      have := h.idle hclosing frame hmem
      rw [hcloses] at this
      cases this
    first := by
      intro hinstance
      have hle := h.first hinstance
      rw [hstack, List.countP_cons_of_pos hcloses] at hle
      show (frame' :: stack).countP Frame.closes ≤ 1
      rwa [List.countP_cons_of_pos hcloses']
    attached := by
      intro hinstance x hx
      rcases List.mem_cons.mp hx with rfl | hx
      · exact hattached (h.attached hinstance frame hmem)
      · exact hpop.attached hinstance x hx
    waiting := by
      intro before x after heq hsome
      cases before with
      | nil =>
        cases heq
        rw [htoken] at hsome
        exact ⟨by simp, (hwaiting [] frame stack rfl hsome).2⟩
      | cons y before =>
        cases heq
        rw [hbelow x (by simp)] at hsome
        cases hsome
    waits := by
      rintro ⟨x, hx, hsome⟩
      rcases List.mem_cons.mp hx with rfl | hx
      · exact h.waits ⟨frame, hmem, htoken ▸ hsome⟩
      · exact hpop.waits ⟨x, hx, hsome⟩
    handled := fun token hx => hpop.handled token (hhandle hx)
    reserved := by
      intro x hx token hsome
      rcases List.mem_cons.mp hx with rfl | hx
      · obtain ⟨hlt, hhandles⟩ := h.reserved frame hmem token (htoken ▸ hsome)
        refine ⟨hlt, fun token' hx => hhandles token' ?_⟩
        rw [hstack]
        exact List.mem_cons_of_mem _ (hhandle hx)
      · rw [hbelow x hx] at hsome
        cases hsome }

/-- The Deferred of a query leaves the dict once it has been fired. -/
theorem delete (h : Inv w) {token : ℤ}
    (hfired : ∀ entry ∈ w.userQueries, entry.1 = token → entry.2 ∈ w.fired) :
    Inv { w with userQueries := w.userQueries.filter fun entry => entry.1 ≠ token } := by
  have hmem {entry : ℤ × ℕ} (hentry : entry ∈ w.userQueries.filter fun entry => entry.1 ≠ token) :
      entry ∈ w.userQueries := List.mem_of_mem_filter hentry
  exact { h with
    below := fun entry hentry => h.below entry (hmem hentry)
    pending := by
      intro d hd hnot
      obtain ⟨token', htoken'⟩ := h.pending d hd hnot
      refine ⟨token', List.mem_filter.mpr ⟨htoken', ?_⟩⟩
      simp only [ne_eq, decide_eq_true_eq]
      exact fun heq => hnot (hfired _ htoken' heq)
    covers := by
      intro x hx
      have hcovers := h.covers x hx
      unfold Frame.Covers at hcovers ⊢
      split
      · exact fun entry hentry => hcovers entry (hmem hentry)
      · show w.userQueries.filter _ = []
        rw [show w.userQueries = [] from hcovers]
        rfl
      · trivial
    keys := (List.filter_sublist.map Prod.fst).nodup h.keys
    issued := fun entry hentry => h.issued entry (hmem hentry)
    handled := fun token' hx =>
      ⟨(h.handled token' hx).1, fun entry hentry => (h.handled token' hx).2 entry (hmem hentry)⟩ }

/-- The loop over `_user_queries` ends. -/
theorem endLoop (h : Inv w) {noreplyWait : Option ℤ} {attached : Bool} {stack : List Frame}
    (hstack : w.stack = .queries noreplyWait [] attached false :: stack) :
    Inv ({ w with stack }.endClose noreplyWait) := by
  have hmem : .queries noreplyWait [] attached false ∈ w.stack := by
    rw [hstack]
    exact List.mem_cons_self
  have hcovers := h.covers _ hmem
  have hwaiting := h.waiting
  have hfirst := h.first
  have hreserved := h.reserved _ hmem
  rw [hstack] at hwaiting hfirst hreserved
  refine (h.pop hstack).endClose (fun d hd => ?_) (hwaiting.token_below (by simp))
    (fun hinstance x hx => ?_) (fun hsome => ?_) fun token htoken => ?_
  · by_contra hnot
    obtain ⟨token, htoken⟩ := h.pending d hd hnot
    cases attached with
    | true =>
      rcases hcovers _ htoken with hfired | hrest
      · exact hnot hfired
      · cases hrest
    | false =>
      rw [show w.userQueries = [] from hcovers] at htoken
      cases htoken
  · have hle := hfirst hinstance
    rw [List.countP_cons_of_pos rfl] at hle
    have hzero := List.countP_eq_zero.mp (Nat.le_zero.mp (Nat.le_of_succ_le_succ hle)) x hx
    simpa using hzero
  · obtain ⟨hinstance, hclosers, hclosed, hlost⟩ := h.waits ⟨_, hmem, hsome⟩
    exact ⟨hinstance, hclosers, hclosed, hlost, (hwaiting [] _ stack rfl hsome).2⟩
  · obtain ⟨hlt, hhandles⟩ := hreserved token htoken
    exact ⟨hlt, fun token' hx => hhandles token' (List.mem_cons_of_mem _ hx)⟩

/-- The loop over `_user_queries` comes to the next Deferred. -/
theorem nextQuery (h : Inv w) {noreplyWait : Option ℤ} {token : ℤ} {d : ℕ} {rest : List (ℤ × ℕ)}
    {attached : Bool} {stack : List Frame}
    (hstack : w.stack = .queries noreplyWait ((token, d) :: rest) attached false :: stack) :
    let w' := { w with stack := .queries noreplyWait rest attached false :: stack }
    Inv ((w'.fire d).getD w') := by
  have hmem : .queries noreplyWait ((token, d) :: rest) attached false ∈ w.stack := by
    rw [hstack]
    exact List.mem_cons_self
  have hbelow := h.restBelow _ hmem
  have hd : d < w.deferreds := hbelow (token, d) List.mem_cons_self
  have shrink : ∀ w : World, Inv w → d ∈ w.fired →
      w.stack = .queries noreplyWait ((token, d) :: rest) attached false :: stack →
      Inv { w with stack := .queries noreplyWait rest attached false :: stack } := by
    intro w h hfired hstack
    have hmem : .queries noreplyWait ((token, d) :: rest) attached false ∈ w.stack := by
      rw [hstack]
      exact List.mem_cons_self
    have hcovers := h.covers _ hmem
    refine h.replace hstack rfl rfl rfl
      (fun entry hentry => h.restBelow _ hmem entry (List.mem_cons_of_mem _ hentry)) ?_ id
    cases attached with
    | true =>
      intro entry hentry
      rcases hcovers entry hentry with hold | hrest
      · exact .inl hold
      · rcases List.mem_cons.mp hrest with rfl | hrest
        · exact .inl hfired
        · exact .inr hrest
    | false => exact hcovers
  intro w'
  by_cases hfired : d ∈ w.fired
  · have hnone : w'.fire d = none := if_pos hfired
    rw [hnone]
    exact shrink w h hfired hstack
  · have hsome : w'.fire d = some _ := if_neg hfired
    rw [hsome]
    have hsettled := h.settle hd hfired
    exact (shrink _ hsettled (by simp) hstack).push_user

/-- The driver goes on where it was interrupted. -/
theorem resume (h : Inv w) (hw' : w.resume = some w') : Inv w' := by
  unfold World.resume at hw'
  split at hw'
  · rename_i token stack hstack
    have hmem : .handle token ∈ w.stack := by
      rw [hstack]
      exact List.mem_cons_self
    simp only at hw'
    split at hw' <;> cases hw'
    · exact (h.pop hstack).delete (h.handled token hmem).2
    · exact (h.pop hstack).raised
  · rename_i noreplyWait stack hstack
    cases hw'
    exact h.replace hstack rfl rfl rfl h.below (fun entry hentry => .inr hentry) fun _ => rfl
  · rename_i stack hstack
    cases hw'
    exact h.pop hstack
  · rename_i noreplyWait attached stack hstack
    cases hw'
    exact h.endLoop hstack
  · rename_i noreplyWait token d rest attached stack hstack
    cases hw'
    exact h.nextQuery hstack
  · cases hw'

/-- A response comes for a query. -/
theorem respond (h : Inv w) (hstack : w.stack = []) (token : ℤ) (ok : Bool) :
    Inv (w.respond token ok) := by
  unfold World.respond
  split
  · rename_i d hlookup
    obtain ⟨before, after, heq, _⟩ := List.lookup_eq_some_iff.mp hlookup
    have hmem : (token, d) ∈ w.userQueries := by
      rw [heq]
      simp
    split
    · by_cases hfired : d ∈ w.fired
      · have hnone : ({ w with stack := .handle token :: w.stack } : World).fire d = none :=
          if_pos hfired
        rw [hnone]
        exact h.raised
      · have hsome : ({ w with stack := .handle token :: w.stack } : World).fire d = some _ :=
          if_neg hfired
        rw [hsome]
        refine ((h.settle (h.below _ hmem) hfired).push_plain (.handle token) rfl trivial
          rfl rfl rfl (.inr hstack) ?_).push_user
        rintro token' ⟨⟩
        refine ⟨h.issued _ hmem, fun entry hentry hkey => ?_⟩
        have hunique : entry = (token, d) :=
          List.inj_on_of_nodup_map h.keys hentry hmem hkey
        rw [hunique]
        simp
    · exact h.raised
  · exact h.raised

theorem step {e : Event} (h : Inv w) (htimely : Timely w e) (hstep : step w e = some w') :
    Inv w' := by
  cases e with
  | enter =>
    simp only [Instance.step] at hstep
    split at hstep <;> cases hstep
    rename_i hstack
    have := h.push_user
    rwa [hstack] at this
  | leave =>
    simp only [Instance.step] at hstep
    split at hstep <;> cases hstep
    rename_i hstack
    exact h.pop hstack
  | runQuery =>
    simp only [Instance.step] at hstep
    split at hstep <;> cases hstep
    exact h.runQuery htimely
  | close noreplyWait =>
    simp only [Instance.step] at hstep
    split at hstep <;> cases hstep
    exact h.connClose htimely
  | respond token ok =>
    simp only [Instance.step] at hstep
    split at hstep <;> cases hstep
    rename_i hready
    exact h.respond hready.1 token ok
  | respondCursor =>
    simp only [Instance.step] at hstep
    split at hstep <;> cases hstep
    rename_i hready
    have := h.push_plain .extend rfl trivial rfl rfl rfl (.inr hready.1) (by simp)
    rwa [hready.1] at this
  | cursorCalls =>
    simp only [Instance.step] at hstep
    split at hstep <;> cases hstep
    · exact h.push_user
    · exact h.push_user
  | cursorReturns =>
    simp only [Instance.step] at hstep
    split at hstep <;> cases hstep
    rename_i hstack
    exact h.pop hstack
  | cursorRaises =>
    simp only [Instance.step] at hstep
    split at hstep <;> cases hstep
    · rename_i hstack
      exact (h.pop hstack).raised
    · rename_i hstack
      exact h.pop hstack
  | resume => exact h.resume hstep
  | connectionLost =>
    simp only [Instance.step] at hstep
    split at hstep <;> cases hstep
    rename_i hstack
    exact { h with
      ended := fun _ => htimely
      lost := fun _ => rfl
      waits := by
        rintro ⟨x, hx, _⟩
        have hx : x ∈ w.stack := hx
        rw [hstack] at hx
        cases hx }

end Inv

/-! ### Whole runs -/

/-- In a run of timely steps every Deferred is fired once at most, and once the connection has ended
all of them have been. -/
theorem answered_of_timely {w : World} (h : machine.ReachedBy Timely w) : Answered w := by
  have hinv : Inv w := h.invariant (fun w hw => hw ▸ inv_init)
    fun w e w' _ hw htimely hstep => hw.step htimely hstep
  exact ⟨hinv.once, hinv.ended⟩

/-- Two queries, an answer whose callback makes a third one, and a `close` that errbacks the rest and
waits. -/
theorem answered_of_timely_close :
    ∃ w, machine.ReachedBy Timely w ∧ w.fired = [0, 1, 2, 3] ∧ w.deferreds = 4 ∧ w.closed = true ∧
      Answered w := by
  have run {w w' : World} {e : Event} (h : machine.ReachedBy Timely w)
      (hstep : step w e = some w') (htimely : Timely w e) : machine.ReachedBy Timely w' :=
    .step h htimely hstep
  have h := run (e := .enter) (.init rfl) rfl trivial
  have h := run (e := .runQuery) h rfl fun _ _ => rfl
  have h := run (e := .runQuery) h rfl fun _ _ => rfl
  have h := run (e := .leave) h rfl trivial
  have h := run (e := .respond 0 true) h rfl trivial
  have h := run (e := .runQuery) h rfl fun _ _ => rfl
  have h := run (e := .leave) h rfl trivial
  have h := run (e := .resume) h rfl trivial
  have h := run (e := .enter) h rfl trivial
  have h := run (e := .close true) h rfl fun _ => ⟨rfl, rfl, by decide⟩
  have h := run (e := .resume) h rfl trivial
  have h := run (e := .resume) h rfl trivial
  have h := run (e := .leave) h rfl trivial
  have h := run (e := .resume) h rfl trivial
  have h := run (e := .leave) h rfl trivial
  have h := run (e := .resume) h rfl trivial
  have h := run (e := .leave) h rfl trivial
  have h := run (e := .respond 3 true) h rfl trivial
  exact ⟨_, h, rfl, rfl, rfl, answered_of_timely h⟩

def run (w : World) : List Event → Option World
  | [] => some w
  | e :: es => (step w e).bind fun w' => run w' es

theorem reachable_run {w w' : World} {es : List Event} (hw : machine.Reachable w)
    (h : run w es = some w') : machine.Reachable w' := by
  exact hw.run (fun _ => rfl) (fun _ _ _ => rfl) (fun _ _ _ hstep => hstep)
    (fun _ _ _ => trivial) h

/-- The transport is lost under a query, and its Deferred stays pending. -/
theorem lost_leaves_pending :
    ∃ w, machine.Reachable w ∧ w.lost = true ∧ w.deferreds = 1 ∧ w.fired = [] ∧ ¬Answered w := by
  have hrun : ∃ w, run init [.enter, .runQuery, .leave, .connectionLost] = some w ∧
      w.lost = true ∧ w.deferreds = 1 ∧ w.fired = [] := ⟨_, rfl, rfl, rfl, rfl⟩
  obtain ⟨w, hw, hlost, hdeferreds, hfired⟩ := hrun
  refine ⟨w, reachable_run (.init rfl) hw, hlost, hdeferreds, hfired, fun hanswered => ?_⟩
  have hmem := hanswered.all (.inl hlost) 0 (by omega)
  rw [hfired] at hmem
  cases hmem

end RethinkDB.Twisted.Instance
