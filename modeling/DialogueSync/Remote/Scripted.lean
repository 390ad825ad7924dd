import DialogueSync.Remote.Basic

/-!
# Remote stores that answer from a script

A remote store in front of which stand prepared replies, in a list for each kind of call. A prepared reply
is given in place of asking the store behind it, which is left as it is.
-/

namespace DialogueSync.Remote

/-- A remote store behind prepared replies. -/
structure Scripted (ρ : Type) where
  /-- The store behind the replies. -/
  inner : ρ
  /-- The next replies about outlines. -/
  outlines : List (Except Failure Outline) := []
  /-- The next replies about bodies. -/
  bodies : List (Except Failure (List Message)) := []
  /-- The next replies about whole conversations. -/
  snapshots : List (Except Failure Snapshot) := []
  /-- The next replies to saving. -/
  saves : List (Except Failure Unit) := []

/-- Gives a prepared reply if there is one, and otherwise asks the store behind it. -/
def Scripted.answer {α ρ : Type} (prepared : Option (Except Failure α))
    (call : ρ → Except Failure α × ρ) (s : Scripted ρ) : Except Failure α × Scripted ρ :=
  match prepared with
  | some reply => (reply, s)
  | none => let (reply, inner) := call s.inner; (reply, { s with inner := inner })

instance {ρ : Type} [Remote ρ] : Remote (Scripted ρ) where
  outline conversation s :=
    Scripted.answer s.outlines.head? (Remote.outline conversation)
      { s with outlines := s.outlines.tail }
  bodies conversation ids s :=
    Scripted.answer s.bodies.head? (Remote.bodies conversation ids) { s with bodies := s.bodies.tail }
  snapshot conversation s :=
    Scripted.answer s.snapshots.head? (Remote.snapshot conversation)
      { s with snapshots := s.snapshots.tail }
  save conversation request s :=
    Scripted.answer s.saves.head? (Remote.save conversation request) { s with saves := s.saves.tail }

end DialogueSync.Remote
