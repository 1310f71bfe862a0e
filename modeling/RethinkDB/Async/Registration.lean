import RethinkDB.Async.Traffic

/-! Whether an answer can be there before the call that asked for it has its future in the table. -/
namespace RethinkDB.Async
open RethinkDB.Lib Net Prog

variable {V : Type}

namespace Traffic

/-- The reader takes no answer for a call that has not run on since its request was sent. -/
def Registered (T : Traffic V) : TrafficStep V → Prop
  | .read => ∀ t payload rest query, T.incoming = (t, payload) :: rest →
      T.calls.lookup t ≠ some ⟨query, .handed⟩
  | _ => True

def Found (T : Traffic V) : Prop := ∀ t payload rest, T.incoming = (t, payload) :: rest →
  t ∈ T.inst.cursorCache ∨ t ∈ T.inst.userQueries

theorem Balanced.found {T : Traffic V} (h : T.Balanced) (hregistered : T.Registered .read) : T.Found := by
  intro t payload rest hin
  obtain ⟨q, phase, hcall, htoken, hstands⟩ := h.addressee hin
  rcases hstands with ⟨rfl, -⟩ | ⟨future, rfl, hwaits | ⟨id, c, hstreams⟩⟩
  · exact absurd hcall (hregistered t payload rest q hin)
  · right
    rw [← AList.lookup_isSome, hwaits.queries]
    exact rfl
  · left
    rw [← AList.lookup_isSome, hstreams.cache]
    exact rfl

/-- A reader that never overtakes a call in the window never raises "Unexpected response received.", as
it finds every token; and one that does raises it at once. -/
theorem found_iff_registered (driver : Driver) (conforms : Except String (Message V) → Prop) :
    (∀ T : Traffic V, (machine driver conforms).ReachedBy Registered T →
      T.failure ≠ some (.driver "Unexpected response received.") ∧
      (T.failure = none → T.Registered .read → T.Found)) ∧
    ∀ (T : Traffic V) i T', (machine driver conforms).Reachable T → ¬T.Registered i →
      Step driver conforms T i T' →
        ¬T.Found ∧ T'.failure = some (.driver "Unexpected response received.") := by
  constructor
  · intro T h
    constructor
    · apply h.invariant
      · intro T hfresh
        rw [hfresh.failure]
        nofun
      · intro T i T' hreached hexpected hok hstep
        have hreachable : (machine driver conforms).Reachable T := hreached.mono fun _ _ _ => trivial
        cases hstep with
        | @read t payload rest o inst hnone hin hframe =>
          have hbalanced := balanced_of_reachable hreachable hnone
          rcases hbalanced.read hin with ⟨q, hcall, -⟩ | ⟨q, future, -, hwp⟩
          · exact absurd hcall (hok t payload rest q hin)
          · rw [wp_of_eq hframe] at hwp
            rcases hwp with ⟨rfl, -⟩ | ⟨e, rfl, he⟩
            · nofun
            · intro heq
              exact he (Option.some.inj heq)
        | call => exact fun heq => by cases driver <;> exact hexpected heq
        | _ => exact hexpected
    · intro hnone
      have hreachable : (machine driver conforms).Reachable T := h.mono fun _ _ _ => trivial
      exact (balanced_of_reachable hreachable hnone).found
  · intro T i T' hreachable hearly hstep
    cases hstep with
    | @read t payload rest o inst hnone hin hframe =>
      have hbalanced := balanced_of_reachable hreachable hnone
      simp only [Registered, not_forall, not_not] at hearly
      obtain ⟨t', payload', rest', query, hin', hcall⟩ := hearly
      obtain ⟨⟨rfl, rfl⟩, rfl⟩ : (t = t' ∧ payload = payload') ∧ rest = rest' := by
        simpa using hin.symm.trans hin'
      obtain ⟨-, hquiet, -⟩ := hbalanced.handed hcall
      constructor
      · intro hfound
        rcases hfound t payload rest hin with hcached | hwaiting
        · rw [← AList.lookup_isSome, hquiet.cache] at hcached
          cases hcached
        · rw [← AList.lookup_isSome, hquiet.queries] at hwaiting
          cases hwaiting
      · rw [Instance.handleFrame_stray hquiet.cache hquiet.queries hbalanced.closing] at hframe
        obtain rfl := (Prod.mk.inj hframe).1
        exact rfl
    | _ => exact absurd trivial hearly

def asked : Traffic ℕ := started.call .trio lookupQuery

def received : Traffic ℕ :=
  { asked with calls := asked.calls.insert 1 ⟨lookupQuery, .handed⟩, owed := [1] }

def overtaken : Traffic ℕ := { received with owed := [], incoming := [(1, [])] }

theorem overtaken_reached (driver : Driver) (hdriver : driver ≠ .asyncio) :
    (machine driver Conforming).ReachedBy Registered overtaken := by
  have hcall : Step driver Conforming started (.call lookupQuery) asked := by
    have hasked : started.call driver lookupQuery = asked := by
      cases driver
      · exact absurd rfl hdriver
      · exact rfl
      · exact rfl
    rw [← hasked]
    exact .call rfl rfl
  have hhand : Step driver Conforming asked (.handOver 1) received :=
    .handOver rfl (AList.lookup_insert _)
  have hanswer : Step driver Conforming received (.answer 1 []) overtaken := by
    have howed : received.owed = [] ++ 1 :: [] := rfl
    have hconforming : Conforming (received.inst.getJsonDecoder lookupQuery []) :=
      ⟨_, rfl, by simp [Message.Explained], by simp⟩
    exact .answer rfl howed (AList.lookup_insert _) hconforming
  have hcalls : started.Registered (.call lookupQuery) := trivial
  have hhands : asked.Registered (.handOver 1) := trivial
  have hanswers : received.Registered (.answer 1 []) := trivial
  exact .step (.step (.step (.init started_fresh) hcalls hcall) hhands hhand) hanswers hanswer

def strayed : Traffic ℕ :=
  overtaken.taken 1 [] [] overtaken.inst (some (.driver "Unexpected response received."))

theorem overtaken_read (driver : Driver) :
    ¬overtaken.Registered .read ∧ Step driver Conforming overtaken .read strayed := by
  constructor
  · intro hregistered
    exact hregistered 1 [] [] lookupQuery rfl (AList.lookup_insert _)
  · have hcache : overtaken.inst.cursorCache.lookup 1 = none := AList.lookup_empty 1
    have hqueries : overtaken.inst.userQueries.lookup 1 = none := AList.lookup_empty 1
    exact .read rfl rfl (Instance.handleFrame_stray hcache hqueries rfl)

theorem found_iff_registered_overtaken :
    overtaken.failure ≠ some (.driver "Unexpected response received.") ∧ ¬overtaken.Found ∧
      strayed.failure = some (.driver "Unexpected response received.") := by
  have hreached := overtaken_reached .trio (by decide)
  have hreachable : (machine .trio Conforming).Reachable overtaken := hreached.mono fun _ _ _ => trivial
  obtain ⟨hearly, hstep⟩ := overtaken_read .trio
  exact ⟨((found_iff_registered .trio Conforming).1 overtaken hreached).1,
    (found_iff_registered .trio Conforming).2 overtaken _ strayed hreachable hearly hstep⟩

/-- So a conforming server can make the Trio and the Tornado reader give up the connection. -/
theorem strayed_reachable :
    (machine .trio Conforming).Reachable strayed ∧ (machine .tornado Conforming).Reachable strayed ∧
      strayed.failure = some (.driver "Unexpected response received.") := by
  have hstray : ∀ driver, driver ≠ .asyncio → (machine driver Conforming).Reachable strayed := by
    intro driver hdriver
    have hreachable : (machine driver Conforming).Reachable overtaken :=
      (overtaken_reached driver hdriver).mono fun _ _ _ => trivial
    exact .step hreachable trivial (overtaken_read driver).2
  exact ⟨hstray .trio (by decide), hstray .tornado (by decide), rfl⟩

end Traffic
end RethinkDB.Async
