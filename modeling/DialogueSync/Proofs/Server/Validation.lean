import DialogueSync.Proofs.Tree.WellFormed
import DialogueSync.Server.Service

/-!
# What the server refuses

A history is accepted exactly if it is `Valid`: its messages have ids that are not blank and stand under them,
the selected message is one of them, and no parent links run in a circle (`validate_eq_ok_iff`). Circles are
found by comparing the history with the tree that is built from it. Building cuts links on circles only, and
leaves no circle, so the links agree exactly if there is none (`cycleFault_eq_none_iff`).

Saving is refused exactly for a blank conversation id or a history that is not valid; otherwise it fails only if
a statement does (`isRefusal_iff_of_save`).
-/

namespace DialogueSync.Server

open DialogueSync.Tree (Circular parentIn)

variable {h : History} {e : Failure}

/-! ### Histories -/

/-- A history whose messages stand under their own ids, none of which is blank, whose selected message is one of
them, and whose parent links do not run in circles. -/
structure Valid (h : History) : Prop where
  /-- Every message stands under its own id. -/
  keyed : IdMap.Keyed Message.id h.messages
  /-- No id is blank. -/
  not_blank : ∀ id ∈ h.messages, ¬ Text.isBlank id
  /-- The selected message is there. -/
  mem_of_current : ∀ id, h.current = some id → id ∈ h.messages
  /-- No way up comes back to where it started. -/
  acyclic : ∀ id, ¬ Circular (parentIn h.messages) id

/-- A message passes if its id is not blank and is its key. -/
lemma messageFault_eq_none_iff {key : String} {m : Message} :
    messageFault key m = none ↔ ¬ Text.isBlank m.id ∧ m.id = key := by
  unfold messageFault
  split
  next hblank => simp [hblank]
  next hblank =>
    split
    next hne => simp [Ne.symm hne]
    next heq => simp [hblank, not_not.mp heq]

/-- The messages of a history have no fault exactly if they stand under their own ids and no id is blank. -/
lemma messageFaults_eq_none_iff :
    (h.messages.toList.findSome? fun e => messageFault e.1 e.2) = none ↔
      IdMap.Keyed Message.id h.messages ∧ ∀ id ∈ h.messages, ¬ Text.isBlank id := by
  rw [List.findSome?_eq_none_iff]
  constructor
  · intro hall
    have hmessage : ∀ (id : String) (m : Message), h.messages[id]? = some m →
        ¬ Text.isBlank m.id ∧ m.id = id :=
      fun id m hm => messageFault_eq_none_iff.mp
        (hall (id, m) (Std.ExtTreeMap.mem_toList_iff_getElem?_eq_some.mpr hm))
    refine ⟨fun id m hm => (hmessage id m hm).2, fun id hid => ?_⟩
    obtain ⟨m, hm⟩ := mem_iff_exists_getElem?.mp hid
    obtain ⟨hblank, rfl⟩ := hmessage id m hm
    exact hblank
  · rintro ⟨hkeyed, hblank⟩ ⟨id, m⟩ he
    have hm : h.messages[id]? = some m := Std.ExtTreeMap.mem_toList_iff_getElem?_eq_some.mp he
    obtain rfl : m.id = id := hkeyed id m hm
    exact messageFault_eq_none_iff.mpr ⟨hblank m.id (mem_iff_exists_getElem?.mpr ⟨m, hm⟩), rfl⟩

/-- A selected message passes if it is there. -/
lemma currentFault_eq_none_iff :
    currentFault h = none ↔ ∀ id, h.current = some id → id ∈ h.messages := by
  unfold currentFault
  cases h.current with
  | none => simp
  | some id => simp

/-- The tree of a history whose messages are under their own ids has these messages, relinked where circles are cut.
-/
lemma messages_ofHistory (hkeyed : IdMap.Keyed Message.id h.messages) :
    (Tree.ofHistory h).messages = Tree.relinkAll (Tree.cutCycles h.messages) := by
  change Tree.relinkAll (Tree.cutCycles (IdMap.collect Message.id h.messages.values)) = _
  rw [IdMap.collect_values hkeyed]

/-- No link is cut exactly if the tree of a history has all its links. -/
lemma cycleFault_eq_none_iff_parentIn (hkeyed : IdMap.Keyed Message.id h.messages) :
    cycleFault h = none ↔ parentIn (Tree.ofHistory h).messages = parentIn h.messages := by
  rw [cycleFault, Option.map_eq_none_iff, List.find?_eq_none]
  simp only [decide_not, Bool.not_eq_eq_eq_not, Bool.not_true, decide_eq_false_iff_not, not_not]
  constructor
  · intro hall
    funext id
    by_cases hid : id ∈ h.messages
    · obtain ⟨m, hm⟩ := mem_iff_exists_getElem?.mp hid
      obtain rfl : m.id = id := hkeyed id m hm
      rw [parentIn, parentIn, hm, Option.bind_some]
      exact hall m (mem_values_iff.mpr ⟨m.id, hm⟩)
    · rw [messages_ofHistory hkeyed, Tree.parentIn_relinkAll]
      cases hparent : parentIn (Tree.cutCycles h.messages) id with
      | none => rw [parentIn, Std.ExtTreeMap.getElem?_eq_none hid, Option.bind_none]
      | some parent =>
        exact ((Tree.isCutOf_cutCycles h.messages).parentIn_eq hparent).symm
  · intro heq m hm
    obtain ⟨id, hid⟩ := mem_values_iff.mp hm
    obtain rfl : m.id = id := hkeyed id m hid
    have hparent := congrFun heq m.id
    rwa [parentIn, parentIn, hid, Option.bind_some] at hparent

/-- The tree of a history has all its links exactly if they do not run in circles. -/
lemma cycleFault_eq_none_iff (hkeyed : IdMap.Keyed Message.id h.messages) :
    cycleFault h = none ↔ ∀ id, ¬ Circular (parentIn h.messages) id := by
  rw [cycleFault_eq_none_iff_parentIn hkeyed]
  constructor
  · intro heq
    rw [← heq]
    exact (Tree.wellFormed_ofHistory h).acyclic
  · intro hacyclic
    rw [messages_ofHistory hkeyed, Tree.cutCycles_eq_self hacyclic]
    exact funext (Tree.parentIn_relinkAll h.messages)

/-- There is no fault in a valid history, and one in any other. -/
lemma fault?_eq_none_iff : fault? h = none ↔ Valid h := by
  rw [fault?, Option.or_eq_none_iff, Option.or_eq_none_iff, messageFaults_eq_none_iff,
    currentFault_eq_none_iff]
  constructor
  · rintro ⟨⟨⟨hkeyed, hblank⟩, hcurrent⟩, hcycle⟩
    exact ⟨hkeyed, hblank, hcurrent, (cycleFault_eq_none_iff hkeyed).mp hcycle⟩
  · intro hvalid
    exact ⟨⟨⟨hvalid.keyed, hvalid.not_blank⟩, hvalid.mem_of_current⟩,
      (cycleFault_eq_none_iff hvalid.keyed).mpr hvalid.acyclic⟩

/-- Exactly the valid histories are accepted. -/
theorem validate_eq_ok_iff : validate h = .ok () ↔ Valid h := by
  rw [← fault?_eq_none_iff, validate]
  cases fault? h <;> simp

lemma isRefusal_failure (fault : HistoryFault) : fault.failure.isRefusal = true := by
  cases fault <;> rfl

/-- A history is refused for no other reason than a fault. -/
lemma isRefusal_of_validate (hrefused : validate h = .error e) : e.isRefusal = true ∧ ¬ Valid h := by
  constructor
  · unfold validate at hrefused
    split at hrefused
    next fault _ => exact Except.error.inj hrefused ▸ isRefusal_failure fault
    next => cases hrefused
  · intro hvalid
    rw [validate_eq_ok_iff.mpr hvalid] at hrefused
    cases hrefused

/-! ### Saving -/

namespace Database

variable {db db' : Database} {conversation : String} {request : SaveRequest} {now : Int64}

/-- What fails after something else has failed there, or in what comes of it. -/
lemma error_cases_of_bind {α β : Type} {x : Except Failure α} {f : α → Except Failure β}
    (h : (x >>= f) = .error e) : x = .error e ∨ ∃ a, x = .ok a ∧ f a = .error e := by
  cases x with
  | error e' => exact Or.inl (congrArg Except.error (Except.error.inj h))
  | ok a => exact Or.inr ⟨a, rfl, h⟩

/-- The failure of a statement. -/
def OfStatement (e : Failure) : Prop :=
  ∃ text, e = .query text

/-- A failing statement fails as statements do. -/
lemma ofStatement_of_run {α : Type} {s : Statement} {answer : α} (h : db.run s answer = .error e) :
    OfStatement e := by
  unfold run at h
  split at h
  · exact ⟨_, (Except.error.inj h).symm⟩
  · cases h

lemma ofStatement_of_conversation? (h : db.conversation? conversation = .error e) : OfStatement e := by
  unfold conversation? at h
  split at h
  · exact ofStatement_of_run h
  · split at h
    · exact ofStatement_of_run h
    · exact ⟨_, (Except.error.inj h).symm⟩

lemma ofStatement_of_saveMessages {ms : List Message} {t : Tables}
    (h : db.saveMessages conversation t ms = .error e) : OfStatement e := by
  induction ms generalizing t with
  | nil => cases h
  | cons m rest ih =>
    rcases error_cases_of_bind h with h | ⟨t', -, h⟩
    · exact ofStatement_of_run h
    · exact ih h

lemma ofStatement_of_replaceHistory {c : Summary} (h : db.replaceHistory c request now = .error e) :
    OfStatement e := by
  rcases error_cases_of_bind h with h | ⟨opened, -, h⟩
  · exact ofStatement_of_run h
  rcases error_cases_of_bind h with h | ⟨saved, -, h⟩
  · exact ofStatement_of_run h
  rcases error_cases_of_bind h with h | ⟨pruned, -, h⟩
  · exact ofStatement_of_run h
  rcases error_cases_of_bind h with h | ⟨filled, -, h⟩
  · exact ofStatement_of_saveMessages h
  rcases error_cases_of_bind h with h | ⟨committed, -, h⟩
  · exact ofStatement_of_run h
  · cases h

/-- Once the conversation id and the history are accepted, saving comes down to looking up the conversation
and replacing its history. -/
lemma save_eq (hblank : ¬ Text.isBlank conversation) (hvalid : Valid request.history) :
    db.save conversation request now = (do
      let stored ← db.conversation? conversation
      db.replaceHistory (stored.getD ⟨conversation, titleOf request.history, now, now⟩) request now) := by
  unfold save
  rw [if_neg hblank, validate_eq_ok_iff.mpr hvalid]
  rfl

/-- Saving that fails is refused exactly for a blank conversation id or a history that is not valid. -/
theorem isRefusal_iff_of_save (h : db.save conversation request now = .error e) :
    e.isRefusal = true ↔ Text.isBlank conversation = true ∨ ¬ Valid request.history := by
  by_cases hblank : Text.isBlank conversation = true
  · refine iff_of_true ?_ (Or.inl hblank)
    unfold save at h
    rw [if_pos hblank] at h
    exact Except.error.inj h ▸ rfl
  by_cases hvalid : Valid request.history
  · refine iff_of_false ?_ (not_or.mpr ⟨hblank, not_not.mpr hvalid⟩)
    have hquery : OfStatement e := by
      rw [save_eq hblank hvalid] at h
      rcases error_cases_of_bind h with h | ⟨stored, -, h⟩
      · exact ofStatement_of_conversation? h
      · exact ofStatement_of_replaceHistory h
    obtain ⟨text, rfl⟩ := hquery
    exact Bool.false_ne_true
  · refine iff_of_true ?_ (Or.inr hvalid)
    unfold save at h
    rw [if_neg hblank] at h
    rcases error_cases_of_bind h with h | ⟨_, hok, -⟩
    · exact (isRefusal_of_validate h).1
    · exact absurd (validate_eq_ok_iff.mp hok) hvalid

end Database

end DialogueSync.Server
