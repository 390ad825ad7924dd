import DialogueSync.Text.Lowercase

/-!
# Roles

Who speaks in a message. A role has one written name in lower case; names read from a text are
recognised in any case.
-/

namespace DialogueSync

/-- The speaker of a message. -/
inductive Role where
  | user
  | assistant
  | system
deriving DecidableEq, Repr

namespace Role

/-- The written name of a role. -/
def name : Role → String
  | .user => "user"
  | .assistant => "assistant"
  | .system => "system"

/-- The role with exactly this written name. -/
def ofName? (s : String) : Option Role :=
  [user, assistant, system].find? fun r => r.name = s

/-- What is said about a text that names no role; it shows the text in lower case. -/
def unknownText (lowered : String) : String :=
  s!"Unknown role: {lowered}"

/-- The role that a text names in any case, or what is said about the text. -/
def read (s : String) : Except String Role :=
  match ofName? (Text.lower s) with
  | some r => .ok r
  | none => .error (unknownText (Text.lower s))

/-- The written name of a role is read back as that role. -/
@[simp] theorem ofName?_name (r : Role) : ofName? r.name = some r := by
  cases r <;> decide

end Role

end DialogueSync
