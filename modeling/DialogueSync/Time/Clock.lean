/-!
# Clocks

Clocks count milliseconds since the epoch. They know no time before it.
-/

namespace DialogueSync.Time

/-- What a clock shows that is set to `t`: the epoch itself where `t` lies before it. -/
def shown (t : Int64) : Int64 :=
  max t 0

end DialogueSync.Time
