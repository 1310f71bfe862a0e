import RethinkDB.Async.Lifecycle

/-! Whether a task can be left waiting for a future that nobody will resolve. -/
namespace RethinkDB.Async
open RethinkDB.Lib Net Prog

variable {V : Type}

namespace Life

variable {driver : Driver} {L L' : Life V}

/-- Whoever awaits a future has a reader that can still deliver to it. -/
def Attended (L : Life V) : Prop := Pending L.inst → L.reader.Alive

/-- Requests come while the reader is alive. It stops, for an error or, in Trio, at the end of the
stream, only when no call is on its way to its future, and none awaits one that is not failed with it. -/
def Timely (driver : Driver) (L : Life V) : LifeStep V → Prop
  | .call _ => L.reader.Alive
  | .close noreplyWait => noreplyWait = true → L.reader.Alive ∨ ShutRaises none L.inst
  | .fail cause text => L.calls = [] ∧ (Pending L.inst → L.inst.closing = false ∧
      ∀ inst, L.Breaks driver inst cause → ¬ShutRaises (some text) inst)
  | .endOfStream => L.calls = [] ∧ ¬Pending L.inst
  | _ => True

/-- A reader that has stopped has nobody waiting for it. -/
def Guarded (L : Life V) : Prop := L.reader.Alive ∨ (L.calls = [] ∧ ¬Pending L.inst)

theorem Guarded.attended (h : L.Guarded) : L.Attended := by
  intro hpending
  rcases h with halive | ⟨-, hnone⟩
  · exact halive
  · exact absurd hpending hnone

/-- Neither the reader nor any query is concerned. -/
theorem Guarded.quiet (h : L.Guarded) (hreader : L'.reader = L.reader) (hcalls : L'.calls = L.calls)
    (hfutures : L'.inst.futures = L.inst.futures) (hqueries : L'.inst.userQueries = L.inst.userQueries) :
    L'.Guarded := by
  rcases h with halive | ⟨hnone, hfree⟩
  · left
    rw [hreader]
    exact halive
  · right
    rw [hcalls, pending_congr hfutures hqueries]
    exact ⟨hnone, hfree⟩

/-- Where `close` leaves things. -/
theorem close_cases (noreplyWait : Bool) (L : Life V) :
    (ShutRaises none L.inst ∧ (L.close driver noreplyWait).inst.futures = L.inst.futures ∧
      (L.close driver noreplyWait).inst.userQueries = L.inst.userQueries ∧
      (L.close driver noreplyWait).calls = L.calls) ∨
    (¬ShutRaises none L.inst ∧ noreplyWait = false ∧
      (L.close driver noreplyWait).inst.userQueries = ∅ ∧ (L.close driver noreplyWait).calls = L.calls) ∨
    (¬ShutRaises none L.inst ∧ noreplyWait = true ∧
      (Pending (L.close driver noreplyWait).inst ∨ (L.close driver noreplyWait).calls ≠ [])) := by
  have hshut := Instance.wp_shut (s := L.inst) none
  unfold wp at hshut
  unfold Life.close ShutRaises
  rcases hout : Instance.shut none L.inst with ⟨_ | e | _, inst⟩
  · rw [hout] at hshut
    right
    cases noreplyWait with
    | false => exact .inl ⟨by simp, rfl, hshut.2, rfl⟩
    | true =>
      refine .inr ⟨by simp, rfl, ?_⟩
      cases driver with
      | asyncio =>
        left
        exact ⟨L.nextToken, _, inst.futures.length, AList.lookup_insert _, by simp [Instance.register]⟩
      | trio | tornado =>
        right
        simp
  · rw [hout] at hshut
    exact .inl ⟨by simp, hshut.2.1, hshut.2.2, rfl⟩
  · rw [hout] at hshut
    exact hshut.elim

theorem Guarded.step {i : LifeStep V} (h : L.Guarded) (htimely : L.Timely driver i)
    (hstep : Step driver L i L') : L'.Guarded := by
  cases hstep with
  | start _ => exact .inl (.inr rfl)
  | call _ _ _ => exact .inl htimely
  | register hcalls =>
    rcases h with halive | ⟨hnone, -⟩
    · exact .inl halive
    · simp [hcalls] at hnone
  | lost => exact h.quiet rfl rfl rfl rfl
  | @fetch id o inst hfetch =>
    have huntouched := (Instance.maybeFetchBatch_untouched id L.inst).2
    rw [hfetch] at huntouched
    exact h.quiet rfl rfl huntouched.futures huntouched.userQueries
  | next _ _ => exact h.quiet rfl rfl rfl rfl
  | @closeCursor id o inst hclose =>
    have huntouched := (Instance.closeCursor_untouched id L.inst).2
    rw [hclose] at huntouched
    exact h.quiet rfl rfl huntouched.futures huntouched.userQueries
  | frame hreader _ => exact .inl (.inr hreader)
  | @fail cause text inst hbreaks =>
    right
    obtain ⟨hcalls, hpending⟩ := htimely
    have huntouched := hbreaks.untouched
    have hsame := pending_congr huntouched.futures huntouched.userQueries
    rcases L.fail_reader inst text with ⟨hbegun, heq⟩ | ⟨-, -, inst', -, hempty, heq⟩ |
      ⟨-, hraises, inst', -, hfutures, hqueries, heq⟩
    · rw [heq]
      refine ⟨hcalls, ?_⟩
      rw [hsame]
      intro hwaiting
      rw [huntouched.closing, (hpending hwaiting).1] at hbegun
      cases hbegun
    · rw [heq]
      exact ⟨hcalls, not_pending_empty hempty⟩
    · rw [heq]
      refine ⟨hcalls, ?_⟩
      rw [pending_congr hfutures hqueries, hsame]
      exact fun hwaiting => (hpending hwaiting).2 inst hbreaks hraises
  | endOfStream _ _ => exact .inr htimely
  | readerClosed hreader =>
    rcases h with halive | hfree
    · rcases halive with hstarting | hreading
      · cases hreader.symm.trans hstarting
      · cases hreader.symm.trans hreading
    · exact .inr hfree
  | close _ =>
    rename_i noreplyWait _
    have hreader : (L.close driver noreplyWait).reader = L.reader := close_reader noreplyWait L
    by_cases halive : L.reader.Alive
    · left
      rw [hreader]
      exact halive
    · have hfree : L.calls = [] ∧ ¬Pending L.inst := h.resolve_left halive
      right
      rcases L.close_cases noreplyWait with ⟨-, hfutures, hqueries, hcalls⟩ |
        ⟨-, -, hempty, hcalls⟩ | ⟨hclean, rfl, -⟩
      · rw [hcalls, pending_congr hfutures hqueries]
        exact hfree
      · rw [hcalls]
        exact ⟨hfree.1, not_pending_empty hempty⟩
      · rcases htimely rfl with hreading | hraises
        · exact absurd hreading halive
        · exact absurd hraises hclean
  | closerAnswered _ _ => exact h.quiet rfl rfl rfl rfl
  | closerFailed _ _ => exact h.quiet rfl rfl rfl rfl
  | closerClosed _ => exact h.quiet rfl rfl rfl rfl
  | closerJoined _ _ => exact h.quiet rfl rfl rfl rfl

/-- A call that comes to its future when the reader has stopped. -/
theorem stranded_call (hreader : ¬L.reader.Alive) (hcalls : L.calls ≠ []) :
    ∃ L', (machine driver).Leads L L' ∧ ¬L'.Attended := by
  obtain ⟨query, after, hsplit⟩ := List.exists_cons_of_ne_nil hcalls
  have hfirst : L.calls = [] ++ query :: after := hsplit
  have hregister : (machine driver).step L .register _ := Step.register hfirst
  refine ⟨_, .single hregister, ?_⟩
  intro hattended
  apply hreader
  apply hattended
  exact ⟨query.token, query, L.inst.futures.length, AList.lookup_insert _, by simp [Instance.register]⟩

theorem stranded (hreader : ¬L.reader.Alive) (hwaiting : Pending L.inst ∨ L.calls ≠ []) :
    ∃ L', (machine driver).Leads L L' ∧ ¬L'.Attended := by
  rcases hwaiting with hpending | hcalls
  · exact ⟨L, .refl, fun hattended => hreader (hattended hpending)⟩
  · exact stranded_call hreader hcalls

theorem fail_stops (inst : Instance V) (text : String) : ¬(L.fail inst text).reader.Alive := by
  have hended : ¬Reader.ended.Alive := by decide
  have hclosing : ¬Reader.closing.Alive := by decide
  rcases L.fail_reader inst text with ⟨-, heq⟩ | ⟨-, -, inst', -, -, heq⟩ | ⟨-, -, inst', -, -, -, heq⟩
  · rw [heq]
    exact hended
  · rw [heq]
    exact hclosing
  · rw [heq]
    exact hended

/-- Who is left behind by a reader that fails when it should not. -/
theorem fail_untimely {cause : Option (ℤ × Bytes)} {text : String} {inst : Instance V}
    (hbreaks : L.Breaks driver inst cause) (hlate : ¬L.Timely driver (.fail cause text)) :
    Pending (L.fail inst text).inst ∨ (L.fail inst text).calls ≠ [] := by
  by_cases hcalls : L.calls = []
  · left
    simp only [Timely, hcalls, true_and, Classical.not_imp, not_and] at hlate
    obtain ⟨hpending, hfailed⟩ := hlate
    have huntouched := hbreaks.untouched
    have hsame := pending_congr huntouched.futures huntouched.userQueries
    rcases L.fail_reader inst text with ⟨-, heq⟩ | ⟨hopen, hclean, -⟩ |
      ⟨-, -, inst', -, hfutures, hqueries, heq⟩
    · rw [heq]
      exact hsame.mpr hpending
    · rw [huntouched.closing] at hopen
      apply absurd _ (hfailed hopen)
      intro inst' hbreaks'
      rw [hbreaks'.unique hbreaks]
      exact hclean
    · rw [heq]
      exact (pending_congr hfutures hqueries).mpr (hsame.mpr hpending)
  · right
    rcases L.fail_reader inst text with ⟨-, heq⟩ | ⟨-, -, inst', -, -, heq⟩ | ⟨-, -, inst', -, -, -, heq⟩
    all_goals
      rw [heq]
      exact hcalls

/-- In a timely run of the asyncio or the Trio driver whoever awaits a future has a reader that can
deliver to it; and a step that is not timely leads to a state in which somebody has none. -/
theorem attended_iff_timely (driver : Driver) (_ : driver ≠ .tornado) :
    (∀ L : Life V, (machine driver).ReachedBy (Timely driver) L → L.Attended) ∧
    ∀ (L : Life V) i L', (machine driver).Reachable L → ¬L.Timely driver i → Step driver L i L' →
      ∃ L'', (machine driver).Leads L' L'' ∧ ¬L''.Attended := by
  constructor
  · intro L h
    apply Guarded.attended
    apply h.invariant
    · intro L hfresh
      exact .inl (.inl hfresh.reader)
    · exact fun _ _ _ _ hguarded htimely hstep => hguarded.step htimely hstep
  · intro L i L' _ hlate hstep
    cases hstep with
    | call _ _ _ => exact stranded_call hlate (by simp)
    | close _ =>
      rename_i noreplyWait _
      simp only [Timely, Classical.not_imp, not_or] at hlate
      obtain ⟨rfl, hreader, hclean⟩ := hlate
      have hstopped : ¬(L.close driver true).reader.Alive := by
        rw [close_reader]
        exact hreader
      rcases L.close_cases true with ⟨hraises, -⟩ | ⟨-, hfalse, -⟩ | ⟨-, -, hwaiting⟩
      · exact absurd hraises hclean
      · cases hfalse
      · exact stranded hstopped hwaiting
    | fail hbreaks => exact stranded (fail_stops _ _) (fail_untimely hbreaks hlate)
    | endOfStream _ _ =>
      have hspinning : ¬Reader.spinning.Alive := by decide
      apply stranded hspinning
      rw [Timely, not_and_or, not_not] at hlate
      exact hlate.symm
    | _ => exact absurd trivial hlate

theorem not_pending_fresh : ¬Pending atWork.inst ∧ ¬Pending broken.inst :=
  ⟨not_pending_empty rfl, not_pending_empty rfl⟩

theorem broken_reached (driver : Driver) : (machine driver).ReachedBy (Timely driver) broken := by
  have hstart : fresh.Timely driver .start := trivial
  have hfail : atWork.Timely driver (.fail none "unpack requires a bytes-like object") :=
    ⟨rfl, fun hpending => absurd hpending not_pending_fresh.1⟩
  exact .step (atWork_reached driver hstart) hfail (atWork_breaks driver)

/-- The user closes a connection whose server is gone, and wants to wait for his writes. -/
theorem broken_close (driver : Driver) : ¬broken.Timely driver (.close true) ∧
    Step driver broken (.close true) (broken.close driver true) := by
  constructor
  · intro htimely
    have hstopped : ¬broken.reader.Alive := by decide
    rcases htimely rfl with halive | hraises
    · exact hstopped halive
    · exact hraises rfl
  · exact .close rfl

theorem attended_iff_timely_broken : broken.Attended ∧
    ∃ L, (machine .asyncio).Leads (broken.close .asyncio true) L ∧ ¬L.Attended := by
  have hreachable : (machine .asyncio).Reachable broken :=
    (broken_reached .asyncio).mono fun _ _ _ => trivial
  obtain ⟨hlate, hstep⟩ := broken_close .asyncio
  exact ⟨(attended_iff_timely .asyncio (by decide)).1 broken (broken_reached .asyncio),
    (attended_iff_timely .asyncio (by decide)).2 broken _ _ hreachable hlate hstep⟩

/-- In both drivers he waits for ever. -/
theorem stranded_reachable : (∃ L : Life ℕ, (machine .asyncio).Reachable L ∧ ¬L.Attended) ∧
    ∃ L : Life ℕ, (machine .trio).Reachable L ∧ ¬L.Attended := by
  have hstopped : ∀ driver, ¬(broken.close driver true).reader.Alive := by
    intro driver
    rw [close_reader]
    decide
  have hstranded : ∀ driver, ∃ L : Life ℕ, (machine driver).Reachable L ∧ ¬L.Attended := by
    intro driver
    have hreachable : (machine driver).Reachable broken :=
      (broken_reached driver).mono fun _ _ _ => trivial
    have hwaiting : Pending (broken.close driver true).inst ∨ (broken.close driver true).calls ≠ [] := by
      rcases broken.close_cases true with ⟨hraises, -⟩ | ⟨-, hfalse, -⟩ | ⟨-, -, hwaiting⟩
      · exact absurd rfl hraises
      · cases hfalse
      · exact hwaiting
    have hclosed : (machine driver).Reachable (broken.close driver true) :=
      .step hreachable trivial (broken_close driver).2
    obtain ⟨L, hleads, hnone⟩ := stranded (hstopped driver) hwaiting
    exact ⟨L, hclosed.leads hleads, hnone⟩
  exact ⟨hstranded .asyncio, hstranded .trio⟩

end Life
end RethinkDB.Async
