import DialogueSync.Stream.Basic
import Mathlib.Tactic.Lemma

/-!
# The figures of a response

A usage has seven figures, which are reported and derived one by one. With an increment the figures that it reports
come in the place of those that were there (`figure_applyTo`).

When a response is made complete, figures are derived for those that nobody reported. The time to the first token and
the time from there to the end are the exception: they are `Measured` whenever no throughput was reported, and then
stand in the place of what was reported for them (`figure_derive_eq_some_iff`).
-/

namespace DialogueSync

/-! ### Figure by figure -/

/-- The figures of a usage. -/
inductive Figure where
  /-- Tokens in the request. -/
  | promptTokens
  /-- Tokens in the response. -/
  | completionTokens
  /-- Tokens in request and response together. -/
  | totalTokens
  /-- Response tokens per second. -/
  | tokensPerSecond
  /-- Milliseconds from sending the request to the first token. -/
  | timeToFirstToken
  /-- Milliseconds from the first token to the end. -/
  | elapsed
  /-- Estimated cost in currency units. -/
  | estimatedCost
deriving DecidableEq, Repr

/-- What the values of a figure are: token counts, times, or rates and costs. -/
abbrev Figure.Value : Figure → Type
  | promptTokens | completionTokens | totalTokens => UInt64
  | timeToFirstToken | elapsed => Int64
  | tokensPerSecond | estimatedCost => Float

/-- The value of a figure, if it is there. -/
def Usage.figure (u : Usage) : (f : Figure) → Option f.Value
  | .promptTokens => u.promptTokens
  | .completionTokens => u.completionTokens
  | .totalTokens => u.totalTokens
  | .tokensPerSecond => u.tokensPerSecond
  | .timeToFirstToken => u.timeToFirstToken
  | .elapsed => u.elapsed
  | .estimatedCost => u.estimatedCost

/-- The value of a figure of a message, if it is there. -/
def Message.figure (m : Message) (f : Figure) : Option f.Value :=
  (m.usage.getD {}).figure f

/-- The value that an increment reports for a figure, if it reports one. -/
def Delta.figure (d : Delta) (f : Figure) : Option f.Value :=
  (d.usage.getD {}).figure f

variable {u : Usage} {f : Figure} {v w : f.Value} {timing : Option Timing} {pricing : Option Pricing}
  {now : Int64}

/-- Nothing is known at first. -/
@[simp] lemma Usage.figure_empty (f : Figure) : ({} : Usage).figure f = none := by
  cases f <;> rfl

/-- A figure is the reported one if there is one, or the one that was known. -/
@[simp] lemma Usage.figure_override (u report : Usage) (f : Figure) :
    (u.override report).figure f = (report.figure f).or (u.figure f) := by
  cases f <;> rfl

/-- Where an increment reports a figure, it comes in the place of the one that was there. -/
lemma figure_applyTo (d : Delta) (m : Message) (f : Figure) :
    (d.applyTo m).figure f = (d.figure f).or (m.figure f) := by
  unfold Message.figure Delta.figure Delta.applyTo
  cases d.usage with
  | none => simp
  | some report => simp

namespace Usage

/-- A usage in which nothing is reported has no figure. -/
lemma figure_eq_none (h : u.isReported = false) (f : Figure) : u.figure f = none := by
  simp only [isReported, Bool.or_eq_false_iff, Option.isSome_eq_false_iff, Option.isNone_iff_eq_none] at h
  cases f <;> simp only [figure, h]

/-! ### Deriving -/

/-- The value is measured for a figure from the timing of a response that is made complete: no throughput was
reported, and the first token came. -/
inductive Measured (u : Usage) (timing : Option Timing) (now : Int64) : (f : Figure) → f.Value → Prop where
  /-- From sending the request to the first token. -/
  | timeToFirstToken {sent first : Int64} (hrate : u.tokensPerSecond = none)
      (htiming : timing = some ⟨sent, some first⟩) : Measured u timing now .timeToFirstToken (first - sent)
  /-- From the first token to the end. -/
  | elapsed {sent first : Int64} (hrate : u.tokensPerSecond = none)
      (htiming : timing = some ⟨sent, some first⟩) : Measured u timing now .elapsed (max (now - first) 0)

/-- The cost is filled in beside the figures that are there. -/
lemma figure_withCost (h : u.figure f = some v) (pricing : Option Pricing) :
    (u.withCost pricing).figure f = some v := by
  unfold withCost
  split
  next hcost =>
    cases f with
    | estimatedCost => cases hcost.symm.trans h
    | _ => exact h
  next => exact h

/-- What is measured stands in the place of what was reported. -/
lemma figure_derive_of_measured (h : Measured u timing now f w) (pricing : Option Pricing) :
    (u.derive timing pricing now).figure f = some w := by
  unfold derive
  apply figure_withCost
  -- The guard is on the throughput alone, so nothing is asked about the figure itself.
  cases h with
  | timeToFirstToken hrate htiming => simp only [withTimings, hrate, htiming, figure]
  | elapsed hrate htiming => simp only [withTimings, hrate, htiming, figure]

/-- A figure for which nothing is measured is kept. -/
lemma figure_derive_of_not_measured (h : u.figure f = some v) (hnot : ∀ w, ¬ Measured u timing now f w)
    (pricing : Option Pricing) : (u.derive timing pricing now).figure f = some v := by
  unfold derive
  apply figure_withCost
  unfold withTimings
  split
  next sent first hrate =>
    cases f with
    | timeToFirstToken => exact absurd (.timeToFirstToken hrate rfl) (hnot _)
    | elapsed => exact absurd (.elapsed hrate rfl) (hnot _)
    | tokensPerSecond => cases hrate.symm.trans h
    | _ => exact h
  next => exact h

/-- A figure that was reported is kept exactly if nothing else is measured for it. -/
lemma figure_derive_eq_some_iff (h : u.figure f = some v) :
    (u.derive timing pricing now).figure f = some v ↔ ∀ w, Measured u timing now f w → w = v := by
  constructor
  · intro hkept w hw
    rw [figure_derive_of_measured hw pricing] at hkept
    exact Option.some.inj hkept
  · intro hall
    by_cases hmeasured : ∃ w, Measured u timing now f w
    · obtain ⟨w, hw⟩ := hmeasured
      rw [figure_derive_of_measured hw pricing, hall w hw]
    · exact figure_derive_of_not_measured h (fun w hw => hmeasured ⟨w, hw⟩) pricing

end Usage

/-- A message that is made complete has the figures that were derived. -/
lemma figure_complete (m : Message) (f : Figure) :
    (Streams.complete m timing pricing now).figure f =
      ((m.usage.getD {}).derive timing pricing now).figure f := by
  unfold Streams.complete Message.figure
  dsimp only
  split
  · rfl
  next hnone =>
    rw [Bool.not_eq_true] at hnone
    exact (Usage.figure_empty f).trans (Usage.figure_eq_none hnone f).symm

end DialogueSync
