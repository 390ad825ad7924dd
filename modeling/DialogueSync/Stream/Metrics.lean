import DialogueSync.Codec.Basic
import DialogueSync.Usage

/-!
# Derived figures

When a response is complete, timings, throughput and cost are derived where the provider did not report
them. Throughput counts from the first token and takes at least one millisecond; the cost is the sum of
the terms for which both the tokens and the price are known.
-/

namespace DialogueSync

/-- When the request for a response was sent and when its first token came. -/
structure Timing where
  /-- When the request was sent, in milliseconds since the epoch. -/
  sentAt : Int64
  /-- When the first token came, if one did. -/
  firstTokenAt : Option Int64 := none
deriving DecidableEq, Repr

/-- Prices of a model in currency units per million tokens. -/
structure Pricing where
  /-- The price of a million tokens of the request. -/
  input : Option Float := none
  /-- The price of a million tokens of the response. -/
  output : Option Float := none
deriving DecidableEq

instance : Codec Pricing where
  encode p := .obj [
    ("input_per_million", Codec.encodeOption p.input),
    ("output_per_million", Codec.encodeOption p.output)]
  decode j := do
    let f ← Codec.fields? j
    return {
      input := ← f.optional "input_per_million"
      output := ← f.optional "output_per_million" }

/-- The cost of some tokens, if their number and their price are known. -/
def Pricing.term (tokens : Option UInt64) (price : Option Float) : Option Float := do
  return (← tokens).toFloat / 1e6 * (← price)

/-- The cost of a response: the sum of the known terms, or nothing if no term is known. -/
def Pricing.cost (p : Pricing) (u : Usage) : Option Float :=
  match term u.promptTokens p.input, term u.completionTokens p.output with
  | none, none => none
  | input, output => some (input.getD 0 + output.getD 0)

/-- Tokens per second over a time in milliseconds, which counts as one at least. -/
def throughput (tokens : UInt64) (elapsed : Int64) : Float :=
  tokens.toFloat * 1000 / (max elapsed 1).toFloat

namespace Usage

/-- Fills in the timings and the throughput, unless a throughput was reported or no token came. -/
def withTimings (u : Usage) (timing : Option Timing) (now : Int64) : Usage :=
  match u.tokensPerSecond, timing with
  | none, some ⟨sent, some first⟩ =>
    let elapsed := max (now - first) 0
    { u with
      elapsed := some elapsed
      timeToFirstToken := some (first - sent)
      tokensPerSecond := u.completionTokens.map fun n => throughput n elapsed }
  | _, _ => u

/-- Fills in the cost, unless one was reported or no price is known. -/
def withCost (u : Usage) (pricing : Option Pricing) : Usage :=
  match u.estimatedCost, pricing with
  | none, some p => { u with estimatedCost := p.cost u }
  | _, _ => u

/-- Fills in what the provider did not report. -/
def derive (u : Usage) (timing : Option Timing) (pricing : Option Pricing) (now : Int64) : Usage :=
  (u.withTimings timing now).withCost pricing

end Usage

end DialogueSync
