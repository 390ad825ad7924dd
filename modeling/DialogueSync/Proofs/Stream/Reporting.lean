import DialogueSync.Proofs.Stream.Tracking

/-!
# Figures that the provider reports

Figures are derived for a complete response where the provider did not report them, and a figure that was reported
should stay. It stays exactly if nothing else is measured for it (`reported_kept_iff`). The times are measured whenever
no throughput was reported, so that a provider which reports times without a throughput has them overwritten
(`overwrites_reported`).
-/

namespace DialogueSync.Streams

namespace Tracker

variable {t : Tracker} {id : String} {m : Message} {before : List Event} {f : Figure} {v : f.Value}

/-- Until a response is finished for the first time, its message has the figures that were reported last. -/
lemma figure_run_of_reported (hm : t.messages[id]? = some m) (hopen : m.done = false)
    (hfinish : ∀ h ∈ own id before, h.isFinish = false)
    (hreported : ((increments (own id before)).filterMap (Delta.figure · f)).getLast? = some v) :
    ∃ m', (t.run before).messages[id]? = some m' ∧ m'.done = false ∧ m'.figure f = some v := by
  have hgathers := gathers_gather hopen (increments (own id before))
  refine ⟨_, message_run hm hopen hfinish, hgathers.notDone, ?_⟩
  rw [hgathers.figure, hreported, Option.some_or]

/-- A figure that is there is kept when figures are derived exactly if nothing else is measured for it. So it is with a
figure that was reported for a response, in whatever increment, when the response is finished. -/
theorem reported_kept_iff (f : Figure) (v : f.Value) :
    (∀ (u : Usage) (timing : Option Timing) (pricing : Option Pricing) (now : Int64), u.figure f = some v →
      ((u.derive timing pricing now).figure f = some v ↔ ∀ w, u.Measured timing now f w → w = v)) ∧
    ∀ (t : Tracker) (id : String) (m : Message), t.messages[id]? = some m → m.done = false →
      ∀ before, (∀ h ∈ own id before, h.isFinish = false) →
        ((increments (own id before)).filterMap (Delta.figure · f)).getLast? = some v →
          ∃ m', (t.run before).messages[id]? = some m' ∧ m'.figure f = some v ∧
            ∀ pricing now, ∃ ended,
              ((t.run before).step ⟨id, .finish pricing now⟩).2.messages[id]? = some ended ∧
                (ended.figure f = some v ↔
                  ∀ w, (m'.usage.getD {}).Measured (t.run before).streams[id]? now f w → w = v) := by
  constructor
  · intro u timing pricing now hv
    exact Usage.figure_derive_eq_some_iff hv
  · intro t id m hm hopen before hfinish hreported
    obtain ⟨m', hm', hopen', hv⟩ := figure_run_of_reported hm hopen hfinish hreported
    refine ⟨m', hm', hv, fun pricing now => ?_⟩
    obtain ⟨after, hstep, hafter⟩ := finish_of_open hm' hopen' pricing now
    refine ⟨_, by rw [hstep]; exact congrArg Response.message hafter, ?_⟩
    rw [figure_complete]
    exact Usage.figure_derive_eq_some_iff hv

/-- The provider reports how long the response took, but no content comes. -/
def silent : List Event := [
  ⟨"a", .start 1000⟩,
  ⟨"a", .apply { usage := some { promptTokens := some 3, elapsed := some 1 } } 1250⟩]

/-- Reported tokens are kept, and so is a reported time as long as no content comes. -/
theorem reported_kept_iff_silent :
    (({ promptTokens := some 3 } : Usage).derive (some ⟨1000, some 1250⟩) none 3750).figure .promptTokens = some 3 ∧
    ∃ ended, ((awaiting.run silent).step ⟨"a", .finish none 3750⟩).2.messages["a"]? = some ended ∧
      ended.figure .elapsed = some 1 := by
  constructor
  · refine ((reported_kept_iff .promptTokens 3).1 _ _ _ _ rfl).mpr fun w hw => ?_
    cases hw
  · obtain ⟨m', hm', hv, hkept⟩ := (reported_kept_iff .elapsed 1).2 awaiting "a" (.await "model" "a" 1)
      (congrArg Response.message response_awaiting) rfl silent (by decide) rfl
    obtain ⟨ended, hended, hiff⟩ := hkept none 3750
    have hresponse := response_run awaiting "a" silent
    rw [response_awaiting] at hresponse
    have htiming : (awaiting.run silent).streams["a"]? = some ⟨1000, none⟩ := congrArg Response.timing hresponse
    refine ⟨ended, hended, hiff.mpr fun w hw => ?_⟩
    rw [htiming] at hw
    cases hw with
    | elapsed hrate htiming => cases htiming

/-- The provider reports both times, and no throughput. -/
def timed : List Event := [
  ⟨"a", .start 1000⟩,
  ⟨"a", .apply { content := some "hi", usage := some { elapsed := some 1, timeToFirstToken := some 2 } } 1250⟩]

/-- When the response is finished, both times are overwritten. -/
theorem overwrites_reported :
    ∃ m' ended, (awaiting.run timed).messages["a"]? = some m' ∧
      m'.figure .elapsed = some 1 ∧ m'.figure .timeToFirstToken = some 2 ∧
      ((awaiting.run timed).step ⟨"a", .finish none 3750⟩).2.messages["a"]? = some ended ∧
      ended.figure .elapsed = some 2500 ∧ ended.figure .timeToFirstToken = some 250 := by
  have hbefore := response_run awaiting "a" timed
  have hafter := response_step_self (awaiting.run timed) "a" (.finish none 3750)
  rw [hbefore] at hafter
  rw [response_awaiting] at hbefore hafter
  exact ⟨_, _, congrArg Response.message hbefore, rfl, rfl, congrArg Response.message hafter, by decide, by decide⟩

end Tracker

end DialogueSync.Streams
