import DialogueSync.Proofs.IdMap
import DialogueSync.Proofs.Server.Validation

/-!
# What saving does to the tables

A save that succeeds replaces the messages of its conversation by those of the history, whatever messages the
conversation had, and leaves every other conversation alone (`getElem?_messages_saved`). The row of the
conversation is written anew, but keeps the title and the time of creation that it had
(`getElem?_conversations_saved`). Nothing else can come of a save (`tables_of_save`).
-/

namespace DialogueSync.Server

variable {t : Tables} {c : Summary} {request : SaveRequest} {now : Int64} {conversation id : String}

namespace Tables

/-- The tables after messages of a conversation are stored. -/
def filled (t : Tables) (conversation : String) (ms : List Message) : Tables :=
  ms.foldl (fun t m => t.saveMessage conversation m) t

/-- The tables after a history takes the place of the stored one. -/
def saved (t : Tables) (c : Summary) (request : SaveRequest) (now : Int64) : Tables :=
  ((t.saveConversation c request now).pruneMessages c.id request.history.messages).filled c.id
    request.history.messages.values

/-! ### Rows -/

/-- To add messages touches no conversation. -/
lemma conversations_filled (t : Tables) (conversation : String) (ms : List Message) :
    (t.filled conversation ms).conversations = t.conversations := by
  induction ms generalizing t with
  | nil => rfl
  | cons m rest ih => exact ih (t.saveMessage conversation m)

/-- Under a key the last message of the list is stored that belongs there. -/
lemma getElem?_messages_filled (t : Tables) (conversation : String) (ms : List Message) (k : MessageKey) :
    (t.filled conversation ms).messages[k]? =
      ((ms.findRev? fun m => (⟨conversation, m.id⟩ : MessageKey) = k).map rowOf).or t.messages[k]? := by
  induction ms generalizing t with
  | nil => rfl
  | cons m rest ih =>
    have hfirst : (t.saveMessage conversation m).messages[k]? =
        if (⟨conversation, m.id⟩ : MessageKey) = k then some (rowOf m) else t.messages[k]? := by
      change (t.messages.insert ⟨conversation, m.id⟩ (rowOf m))[k]? = _
      rw [Std.ExtTreeMap.getElem?_insert]
      simp only [Std.compare_eq_iff_eq]
    change ((t.saveMessage conversation m).filled conversation rest).messages[k]? = _
    rw [ih, hfirst, List.findRev?]
    cases rest.findRev? fun m => (⟨conversation, m.id⟩ : MessageKey) = k with
    | some m' => rfl
    | none => by_cases hk : (⟨conversation, m.id⟩ : MessageKey) = k <;> simp [hk]

/-- Only messages of the conversation that are not to be kept are taken out. -/
lemma getElem?_messages_pruned (t : Tables) (conversation : String) (keep : IdMap Message)
    (k : MessageKey) : (t.pruneMessages conversation keep).messages[k]? =
      if k.conversation = conversation ∧ k.id ∉ keep then none else t.messages[k]? := by
  change (t.messages.filter _)[k]? = _
  rw [Std.ExtTreeMap.getElem?_filter']
  cases t.messages[k]? with
  | none => simp
  | some row =>
    by_cases hk : k.conversation = conversation
    · by_cases hid : k.id ∈ keep <;> simp [hk, hid]
    · simp [hk]

/-- After a save a conversation has the messages of the history, and every other one those that it had. -/
theorem getElem?_messages_saved (hkeyed : IdMap.Keyed Message.id request.history.messages) :
    (t.saved c request now).messages[(⟨conversation, id⟩ : MessageKey)]? =
      if conversation = c.id then request.history.messages[id]?.map rowOf
      else t.messages[(⟨conversation, id⟩ : MessageKey)]? := by
  unfold saved
  rw [getElem?_messages_filled, getElem?_messages_pruned]
  by_cases hc : conversation = c.id
  · subst hc
    have hfound : (request.history.messages.values.findRev? fun m =>
        (⟨c.id, m.id⟩ : MessageKey) = ⟨c.id, id⟩) = request.history.messages[id]? := by
      have hcollect : (IdMap.collect Message.id request.history.messages.values)[id]? = _ :=
        IdMap.getElem?_collect request.history.messages.values id
      rw [IdMap.collect_values hkeyed] at hcollect
      rw [hcollect]
      congr 1
      funext m
      simp
    rw [hfound, if_pos rfl]
    cases hm : request.history.messages[id]? with
    | some m => rfl
    | none =>
      have hid : id ∉ request.history.messages := by
        rw [mem_iff_exists_getElem?, hm]
        simp
      rw [if_pos ⟨rfl, hid⟩]
      rfl
  · have hnone : (request.history.messages.values.findRev? fun m =>
        (⟨c.id, m.id⟩ : MessageKey) = ⟨conversation, id⟩) = none := by
      rw [List.findRev?_eq_find?_reverse, List.find?_eq_none]
      simp [Ne.symm hc]
    rw [hnone, if_neg hc, if_neg fun hother => hc hother.1]
    rfl

/-- The row of a conversation after a save. -/
def savedRow (t : Tables) (c : Summary) (request : SaveRequest) (now : Int64) : ConversationRow where
  title := (t.conversations[c.id]?.map ConversationRow.title).getD (some c.title)
  models := some (encode request.models)
  params := some request.params
  files := some (encode request.files)
  currentId := request.history.current
  createdAt := (t.conversations[c.id]?.map ConversationRow.createdAt).getD (some c.createdAt)
  updatedAt := some now

/-- To save a conversation changes its own row only. -/
theorem getElem?_conversations_saved : (t.saved c request now).conversations[conversation]? =
    if conversation = c.id then some (t.savedRow c request now) else t.conversations[conversation]? := by
  unfold saved
  rw [conversations_filled]
  change (t.conversations.insert c.id (t.savedRow c request now))[conversation]? = _
  rw [Std.ExtTreeMap.getElem?_insert]
  simp only [Std.compare_eq_iff_eq]
  exact if_congr eq_comm rfl rfl

end Tables

/-! ### Saving -/

namespace Database

variable {db db' : Database}

/-- A statement has no answer but its own. -/
lemma eq_of_run {α : Type} {s : Statement} {answer x : α} (h : db.run s answer = .ok x) : x = answer := by
  unfold run at h
  split at h
  · cases h
  · exact (Except.ok.inj h).symm

/-- What succeeds after something else comes of what that has succeeded with. -/
lemma exists_of_bind {α β : Type} {x : Except Failure α} {f : α → Except Failure β} {b : β}
    (h : (x >>= f) = .ok b) : ∃ a, x = .ok a ∧ f a = .ok b := by
  cases x with
  | error e => cases h
  | ok a => exact ⟨a, rfl, h⟩

/-- Messages that could all be saved are all saved. -/
lemma tables_of_saveMessages {ms : List Message} {t' : Tables}
    (h : db.saveMessages conversation t ms = .ok t') : t' = t.filled conversation ms := by
  induction ms generalizing t with
  | nil => exact (Except.ok.inj h).symm
  | cons m rest ih =>
    obtain ⟨first, hfirst, h⟩ := exists_of_bind h
    rw [ih h, eq_of_run hfirst]
    rfl

lemma tables_of_replaceHistory (h : db.replaceHistory c request now = .ok db') :
    db'.tables = db.tables.saved c request now := by
  obtain ⟨opened, hopened, h⟩ := exists_of_bind h
  obtain ⟨saved, hsaved, h⟩ := exists_of_bind h
  obtain ⟨pruned, hpruned, h⟩ := exists_of_bind h
  obtain ⟨filled, hfilled, h⟩ := exists_of_bind h
  obtain ⟨committed, hcommitted, h⟩ := exists_of_bind h
  rw [← Except.ok.inj h, eq_of_run hcommitted, tables_of_saveMessages hfilled, eq_of_run hpruned,
    eq_of_run hsaved, eq_of_run hopened]
  rfl

/-- What looking up a conversation gives. -/
lemma conversation?_cases {found : Option Summary} (h : db.conversation? conversation = .ok found) :
    (db.tables.conversations[conversation]? = none ∧ found = none) ∨
      ∃ row c, db.tables.conversations[conversation]? = some row ∧ row.summary? conversation = some c ∧
        found = some c := by
  unfold conversation? at h
  split at h
  next hrow => exact Or.inl ⟨hrow, eq_of_run h⟩
  next row hrow =>
    split at h
    next c hc => exact Or.inr ⟨row, c, hrow, hc, eq_of_run h⟩
    next => cases h

/-- A summary is of the conversation under whose id its row is stored. -/
lemma id_of_summary? {row : ConversationRow} (h : row.summary? conversation = some c) :
    c.id = conversation := by
  simp only [ConversationRow.summary?, Option.bind_eq_bind, Option.bind_eq_some_iff] at h
  obtain ⟨title, -, createdAt, -, updatedAt, -, h⟩ := h
  exact (congrArg Summary.id (Option.some.inj h)).symm

/-- A save that succeeds is of a valid history, which then takes the place of the stored one. -/
theorem tables_of_save (h : db.save conversation request now = .ok db') :
    Valid request.history ∧ ∃ c : Summary, c.id = conversation ∧
      db'.tables = db.tables.saved c request now ∧
      (db.tables.conversations[conversation]? = none →
        c.title = titleOf request.history ∧ c.createdAt = now) := by
  have hblank : ¬ Text.isBlank conversation := by
    intro hblank
    unfold save at h
    rw [if_pos hblank] at h
    cases h
  have hvalid : Valid request.history := by
    unfold save at h
    rw [if_neg hblank] at h
    obtain ⟨_, hvalid, -⟩ := exists_of_bind h
    exact validate_eq_ok_iff.mp hvalid
  rw [save_eq hblank hvalid] at h
  obtain ⟨found, hfound, h⟩ := exists_of_bind h
  refine ⟨hvalid, _, ?_, tables_of_replaceHistory h, ?_⟩
  · rcases conversation?_cases hfound with ⟨-, rfl⟩ | ⟨row, c, -, hc, rfl⟩
    · rfl
    · exact id_of_summary? hc
  · intro hnone
    rcases conversation?_cases hfound with ⟨-, rfl⟩ | ⟨row, c, hrow, -⟩
    · exact ⟨rfl, rfl⟩
    · rw [hnone] at hrow
      cases hrow

end Database

end DialogueSync.Server
