/-!
# Usage figures

Token counts, timings and cost of a response. Providers report different subsets, so every figure is
optional, and a later report overrides figure by figure.
-/

namespace DialogueSync

/-- The metering of a response; a figure nobody reported or derived is absent. -/
structure Usage where
  /-- Tokens in the request. -/
  promptTokens : Option UInt64 := none
  /-- Tokens in the response. -/
  completionTokens : Option UInt64 := none
  /-- Tokens in request and response together. -/
  totalTokens : Option UInt64 := none
  /-- Response tokens per second. -/
  tokensPerSecond : Option Float := none
  /-- Milliseconds from sending the request to the first token. -/
  timeToFirstToken : Option Int64 := none
  /-- Milliseconds from the first token to the end. -/
  elapsed : Option Int64 := none
  /-- Estimated cost in currency units. -/
  estimatedCost : Option Float := none
deriving DecidableEq, Inhabited

namespace Usage

/-- The figures of `report` where it has them, and of `u` elsewhere. -/
def override (u report : Usage) : Usage where
  promptTokens := report.promptTokens.or u.promptTokens
  completionTokens := report.completionTokens.or u.completionTokens
  totalTokens := report.totalTokens.or u.totalTokens
  tokensPerSecond := report.tokensPerSecond.or u.tokensPerSecond
  timeToFirstToken := report.timeToFirstToken.or u.timeToFirstToken
  elapsed := report.elapsed.or u.elapsed
  estimatedCost := report.estimatedCost.or u.estimatedCost

/-- Whether some figure is there. -/
def isReported (u : Usage) : Bool :=
  u.promptTokens.isSome || u.completionTokens.isSome || u.totalTokens.isSome ||
    u.tokensPerSecond.isSome || u.timeToFirstToken.isSome || u.elapsed.isSome ||
    u.estimatedCost.isSome

end Usage

end DialogueSync
