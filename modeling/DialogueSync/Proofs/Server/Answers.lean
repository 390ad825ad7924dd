import DialogueSync.Proofs.Server.Rows
import DialogueSync.Proofs.Server.Store
import DialogueSync.Proofs.Tree.Changes

/-!
# What the server answers after a run

After any attempts to save, each of which may be refused or fail, the tables hold of a conversation what the
first and the last accepted attempt have left: the title and the time of creation from the first one, all the
rest from the last one (`Holds`, `represents_afterAll`). The children of a message are not stored, but they
follow from the parents, so the tree of the stored rows is that of the saved history (`ofMessages_bare`), and
the server answers for the conversation as that tree does (`answers_afterAll`).
-/

namespace DialogueSync

open DialogueSync.Tree (parentIn)

/-! ### Trees from messages without children -/

/-- The message without its list of children. -/
def Message.bare (m : Message) : Message :=
  { m with children := [] }

namespace Tree

variable {ms : IdMap Message}

/-- The messages without their children are found where the messages are. -/
lemma getElem?_map_bare (id : String) :
    (ms.map fun _ m => m.bare)[id]? = ms[id]?.map Message.bare :=
  Std.ExtTreeMap.getElem?_map

lemma parentIn_map_bare : parentIn (ms.map fun _ m => m.bare) = parentIn ms := by
  funext id
  rw [parentIn, parentIn, getElem?_map_bare]
  cases ms[id]? <;> rfl

/-- Which children are derived does not depend on the lists of children. -/
lemma relinkAll_map_bare : relinkAll (ms.map fun _ m => m.bare) = relinkAll ms :=
  relinkAll_eq_of_children getElem?_map_bare

/-- The tree of a valid history can be built from its messages without their children. -/
lemma ofMessages_bare {h : History} (hvalid : Server.Valid h) :
    ofMessages (h.messages.values.map Message.bare) h.current = ofHistory h := by
  have hcollect : IdMap.collect Message.id (h.messages.values.map Message.bare) =
      h.messages.map fun _ m => m.bare := by
    refine IdMap.collect_eq (fun x hx => ?_) fun id hid => ?_
    · obtain ⟨m, hm, rfl⟩ := List.mem_map.mp hx
      obtain ⟨id, hid⟩ := mem_values_iff.mp hm
      obtain rfl : m.id = id := hvalid.keyed id m hid
      change (h.messages.map fun _ m => m.bare)[m.id]? = _
      rw [getElem?_map_bare, hid, Option.map_some]
    · obtain ⟨m, hm⟩ := mem_iff_exists_getElem?.mp (Std.ExtTreeMap.mem_map.mp hid)
      exact ⟨m.bare, List.mem_map_of_mem (mem_values_iff.mpr ⟨id, hm⟩), hvalid.keyed id m hm⟩
  have hacyclic : ∀ id, ¬ Circular (parentIn (h.messages.map fun _ m => m.bare)) id := by
    rw [parentIn_map_bare]
    exact hvalid.acyclic
  rw [ofMessages, hcollect, ofIdMap, cutCycles_eq_self hacyclic, relinkAll_map_bare, ofHistory, ofMessages,
    IdMap.collect_values hvalid.keyed, ofIdMap, cutCycles_eq_self hvalid.acyclic]

end Tree

namespace Server

/-! ### Attempts to save -/

/-- An attempt to save a conversation at some time, during which some statements fail. -/
structure Attempt where
  /-- The conversation. -/
  conversation : String
  /-- What is to be saved. -/
  request : SaveRequest
  /-- The time. -/
  now : Int64
  /-- Whether a statement fails. -/
  fails : Statement → Bool := fun _ => false

namespace Tables

/-- What comes of an attempt. -/
def attempt (t : Tables) (a : Attempt) : Except Failure Database :=
  Database.save ⟨t, a.fails⟩ a.conversation a.request a.now

/-- The tables after an attempt: one that is not accepted leaves no trace. -/
def after (t : Tables) (a : Attempt) : Tables :=
  match t.attempt a with
  | .ok db => db.tables
  | .error _ => t

/-- The tables after several attempts. -/
def afterAll (t : Tables) (attempts : List Attempt) : Tables :=
  attempts.foldl after t

/-- The attempts that are accepted. -/
def accepted (t : Tables) : List Attempt → List Attempt
  | [] => []
  | a :: rest =>
    if (t.attempt a).isOk then a :: accepted (t.after a) rest else accepted (t.after a) rest

end Tables

/-- What was accepted was attempted. -/
lemma Tables.mem_of_mem_accepted {t : Tables} {a : Attempt} {attempts : List Attempt}
    (h : a ∈ t.accepted attempts) : a ∈ attempts := by
  induction attempts generalizing t with
  | nil => exact h
  | cons first rest ih =>
    rw [accepted] at h
    split at h
    · rcases List.mem_cons.mp h with rfl | h
      · exact List.mem_cons_self
      · exact List.mem_cons_of_mem first (ih h)
    · exact List.mem_cons_of_mem first (ih h)

/-! ### What the tables hold -/

variable {t : Tables} {a first last : Attempt} {conversation : String} {made attempts : List Attempt}

/-- The tables hold a conversation that was saved, the first and the last time by certain attempts. -/
structure Holds (t : Tables) (conversation : String) (first last : Attempt) : Prop where
  /-- The history was accepted. -/
  valid : Valid last.request.history
  /-- The row of the conversation has the title and the time of creation of the first attempt, and the
  selected message of the last one. -/
  exists_row : ∃ row, t.conversations[conversation]? = some row ∧
    row.title = some (titleOf first.request.history) ∧ row.createdAt = some first.now ∧
    row.updatedAt = some last.now ∧ row.currentId = last.request.history.current
  /-- The messages are those of the last attempt. -/
  getElem?_messages : ∀ id, t.messages[(⟨conversation, id⟩ : MessageKey)]? =
    last.request.history.messages[id]?.map rowOf

/-- The tables hold of a conversation what the accepted attempts to save it have left. -/
def Represents (t : Tables) (conversation : String) (made : List Attempt) : Prop :=
  (made = [] → t.conversations[conversation]? = none) ∧
    ∀ first last, made.head? = some first → made.getLast? = some last → Holds t conversation first last

/-- Empty tables represent a conversation that was never saved. -/
lemma represents_empty (conversation : String) : Represents {} conversation [] :=
  ⟨fun _ => Std.ExtTreeMap.getElem?_empty, fun _ _ hfirst => by cases hfirst⟩

/-- An attempt that is accepted is of a valid history, and saves it. -/
lemma tables_of_attempt {db : Database} (h : t.attempt a = .ok db) :
    Valid a.request.history ∧ t.after a = db.tables ∧ ∃ c : Summary, c.id = a.conversation ∧
      db.tables = t.saved c a.request a.now ∧
      (t.conversations[a.conversation]? = none → c.title = titleOf a.request.history ∧ c.createdAt = a.now) := by
  obtain ⟨hvalid, c, hc, htables, hnew⟩ := Database.tables_of_save h
  refine ⟨hvalid, ?_, c, hc, htables, hnew⟩
  rw [Tables.after, h]

/-- An attempt on another conversation changes nothing about a conversation. -/
lemma Represents.of_other (h : Represents t conversation made) {db : Database}
    (hok : t.attempt a = .ok db) (hne : a.conversation ≠ conversation) :
    Represents (t.after a) conversation made := by
  obtain ⟨hvalid, hafter, c, hc, htables, -⟩ := tables_of_attempt hok
  have hother : ¬ conversation = c.id := fun heq => hne (hc ▸ heq.symm)
  have hrow : (t.after a).conversations[conversation]? = t.conversations[conversation]? := by
    rw [hafter, htables, Tables.getElem?_conversations_saved, if_neg hother]
  refine ⟨fun hnil => hrow.trans (h.1 hnil), fun first last hfirst hlast => ?_⟩
  have hholds := h.2 first last hfirst hlast
  refine ⟨hholds.valid, hrow ▸ hholds.exists_row, fun id => ?_⟩
  rw [hafter, htables, Tables.getElem?_messages_saved hvalid.keyed, if_neg hother,
    hholds.getElem?_messages]

/-- An attempt that is accepted becomes the last one, and the first one if there was none. -/
lemma Represents.of_same (h : Represents t conversation made) {db : Database}
    (hok : t.attempt a = .ok db) (heq : a.conversation = conversation) :
    Represents (t.after a) conversation (made ++ [a]) := by
  obtain ⟨hvalid, hafter, c, hc, htables, hnew⟩ := tables_of_attempt hok
  subst heq
  refine ⟨fun hnil => by simp at hnil, fun first last hfirst hlast => ?_⟩
  obtain rfl : a = last := by simpa using hlast
  have hrow : (t.after a).conversations[a.conversation]? = some (t.savedRow c a.request a.now) := by
    rw [hafter, htables, Tables.getElem?_conversations_saved, if_pos hc.symm]
  refine ⟨hvalid, ⟨_, hrow, ?_⟩, fun id => ?_⟩
  · rw [Tables.savedRow, hc]
    cases made with
    | nil =>
      obtain rfl : a = first := by simpa using hfirst
      have hnone := h.1 rfl
      obtain ⟨htitle, hcreated⟩ := hnew hnone
      rw [hnone]
      exact ⟨congrArg some htitle, congrArg some hcreated, rfl, rfl⟩
    | cons first' rest =>
      obtain rfl : first' = first := by simpa using hfirst
      obtain ⟨last', hlast'⟩ : ∃ last', (first' :: rest).getLast? = some last' :=
        ⟨_, List.getLast?_eq_some_getLast (List.cons_ne_nil first' rest)⟩
      obtain ⟨row, hold, htitle, hcreated, -⟩ := (h.2 first' last' rfl hlast').exists_row
      rw [hold]
      exact ⟨htitle, hcreated, rfl, rfl⟩
  · rw [hafter, htables, Tables.getElem?_messages_saved hvalid.keyed, if_pos hc.symm]

/-- After any attempts the tables hold of a conversation what the accepted ones of it have left. -/
theorem represents_afterAll (h : Represents t conversation made) (attempts : List Attempt) :
    Represents (t.afterAll attempts) conversation
      (made ++ (t.accepted attempts).filter (·.conversation = conversation)) := by
  induction attempts generalizing t made with
  | nil => simpa [Tables.accepted, Tables.afterAll] using h
  | cons a rest ih =>
    change Represents ((t.after a).afterAll rest) _ _
    rw [Tables.accepted]
    cases hok : t.attempt a with
    | error e =>
      have hafter : t.after a = t := by rw [Tables.after, hok]
      rw [hafter]
      exact ih h
    | ok db =>
      change Represents _ _ (made ++ (a :: (t.after a).accepted rest).filter _)
      by_cases heq : a.conversation = conversation
      · have hrest := ih (h.of_same hok heq)
        rwa [List.append_assoc, List.singleton_append, ← List.filter_cons_of_pos (by simpa using heq)] at hrest
      · rw [List.filter_cons_of_neg (by simpa using heq)]
        exact ih (h.of_other hok heq)

/-! ### What is read -/

/-- The rows of a conversation stand in the order of the ids of their messages. -/
lemma pairwise_messagesOf (t : Tables) (conversation : String) :
    (t.messagesOf conversation).Pairwise fun e e' => compare e.1 e'.1 = .lt := by
  rw [Tables.messagesOf, List.pairwise_map]
  refine List.Pairwise.imp_of_mem (fun {e e'} he he' hlt => ?_) Std.ExtTreeMap.ordered_keys_toList
  have hconversation : ∀ e ∈ (t.messages.filter fun k _ => k.conversation = conversation).toList,
      e.1.conversation = conversation := by
    intro e he
    rw [Std.ExtTreeMap.toList_filter] at he
    simpa using (List.mem_filter.mp he).2
  have hthen : (compare e.1.conversation e'.1.conversation).then (compare e.1.id e'.1.id) = .lt := hlt
  rwa [hconversation e he, hconversation e' he', Std.compare_self, Ordering.eq_then] at hthen

/-- The rows of a conversation are those under its name. -/
lemma mem_messagesOf_iff {id : String} {row : MessageRow} :
    (id, row) ∈ t.messagesOf conversation ↔ t.messages[(⟨conversation, id⟩ : MessageKey)]? = some row := by
  rw [Tables.messagesOf, List.mem_map]
  constructor
  · rintro ⟨⟨k, row'⟩, he, heq⟩
    obtain ⟨rfl, rfl⟩ := Prod.mk.inj heq
    rw [Std.ExtTreeMap.toList_filter, List.mem_filter] at he
    obtain rfl : k.conversation = conversation := by simpa using he.2
    exact Std.ExtTreeMap.mem_toList_iff_getElem?_eq_some.mp he.1
  · intro hrow
    refine ⟨(⟨conversation, id⟩, row), ?_, rfl⟩
    rw [Std.ExtTreeMap.toList_filter, List.mem_filter]
    exact ⟨Std.ExtTreeMap.mem_toList_iff_getElem?_eq_some.mpr hrow, by simp⟩

/-- Two tables have the same rows of a conversation if they have the same row under every id. -/
lemma messagesOf_congr {t' : Tables} (h : ∀ id, t.messages[(⟨conversation, id⟩ : MessageKey)]? =
    t'.messages[(⟨conversation, id⟩ : MessageKey)]?) : t.messagesOf conversation = t'.messagesOf conversation := by
  refine eq_of_ordered (pairwise_messagesOf t conversation) (pairwise_messagesOf t' conversation) ?_
  rintro ⟨id, row⟩
  rw [mem_messagesOf_iff, mem_messagesOf_iff, h]

/-- The rows of a conversation are those of messages if these are what is stored under their ids. -/
lemma messagesOf_eq_map_rowOf {ms : IdMap Message} (hkeyed : IdMap.Keyed Message.id ms)
    (h : ∀ id, t.messages[(⟨conversation, id⟩ : MessageKey)]? = ms[id]?.map rowOf) :
    t.messagesOf conversation = ms.values.map fun m => (m.id, rowOf m) := by
  have hrows : (ms.values.map fun m => (m.id, rowOf m)).Pairwise
      fun e e' => compare e.1 e'.1 = .lt := by
    rw [List.pairwise_map, values_eq_map_toList, List.pairwise_map]
    refine List.Pairwise.imp_of_mem (fun {e e'} he he' hlt => ?_) Std.ExtTreeMap.ordered_keys_toList
    rwa [hkeyed _ _ (Std.ExtTreeMap.mem_toList_iff_getElem?_eq_some.mp he),
      hkeyed _ _ (Std.ExtTreeMap.mem_toList_iff_getElem?_eq_some.mp he')]
  refine eq_of_ordered (pairwise_messagesOf t conversation) hrows ?_
  rintro ⟨id, row⟩
  rw [mem_messagesOf_iff, h, Option.map_eq_some_iff, List.mem_map]
  constructor
  · rintro ⟨m, hm, rfl⟩
    exact ⟨m, mem_values_iff.mpr ⟨id, hm⟩, by rw [hkeyed id m hm]⟩
  · rintro ⟨m, hm, heq⟩
    obtain ⟨rfl, rfl⟩ := Prod.mk.inj heq
    obtain ⟨id, hid⟩ := mem_values_iff.mp hm
    exact ⟨m, (hkeyed id m hid).symm ▸ hid, rfl⟩

/-- The rows of a conversation that was saved are those of the messages of the last history. -/
lemma Holds.messagesOf_eq (h : Holds t conversation first last) : t.messagesOf conversation =
    last.request.history.messages.values.map fun m => (m.id, rowOf m) :=
  messagesOf_eq_map_rowOf h.valid.keyed h.getElem?_messages

/-- Every metering of a history is read back as it was stored. -/
def Exact (h : History) : Prop :=
  ∀ m ∈ h.messages.values, ∀ u, m.usage = some u → decode (encode u) = some u

/-- A message comes back from its row without its children if its usage does. -/
lemma stored_eq_bare {m : Message} (h : ∀ u, m.usage = some u → decode (encode u) = some u) :
    stored m = m.bare := by
  have husage : m.usage.map Usage.written = m.usage := by
    cases hu : m.usage with
    | none => rfl
    | some u =>
      have hwritten := h u hu
      rw [Usage.decode_encode] at hwritten
      rw [Option.map_some, hwritten]
  rw [stored, husage, Message.bare]

/-- The messages of the tree of a valid history are those of the history but for the children. -/
lemma bare_ofHistory {h : History} (hvalid : Valid h) (p : String → Bool) :
    ((Tree.ofHistory h).messages.values.filter fun m => p m.id).map Message.bare =
      (h.messages.values.filter fun m => p m.id).map Message.bare := by
  rw [messages_ofHistory hvalid.keyed, Tree.cutCycles_eq_self hvalid.acyclic, values_eq_map_toList,
    values_eq_map_toList, Tree.relinkAll, Std.ExtTreeMap.toList_map]
  simp only [List.filter_map, List.map_map]
  rfl

namespace Database

/-- Rows of messages are read back as what is stored of them. -/
lemma readMessages_rowOf (ms : List Message) :
    readMessages (ms.map fun m => (m.id, rowOf m)) = .ok (ms.map stored) := by
  induction ms with
  | nil => rfl
  | cons m rest ih =>
    unfold readMessages at ih ⊢
    rw [List.map_cons, List.mapM_cons, message_rowOf, ih]
    rfl

lemma readMessages_rows {ms : List Message}
    (hexact : ∀ m ∈ ms, ∀ u, m.usage = some u → decode (encode u) = some u) :
    readMessages (ms.map fun m => (m.id, rowOf m)) = .ok (ms.map Message.bare) := by
  rw [readMessages_rowOf, List.map_congr_left fun m hm => stored_eq_bare (hexact m hm)]

/-- The statements by which a conversation is read do not fail. -/
def Reads (db : Database) (conversation : String) : Prop :=
  ∀ s ∈ [.findConversation conversation, .findMessages conversation, .findCurrent conversation, .findBodies],
    db.fails s = false

variable {db : Database}

/-- A statement that does not fail gives its answer. -/
lemma run_of_fails {α : Type} {s : Statement} (h : db.fails s = false) (answer : α) :
    db.run s answer = .ok answer := by
  rw [run, h]
  rfl

/-- A conversation without a row is unknown. -/
lemma conversation_of_none (hreads : db.Reads conversation)
    (h : db.tables.conversations[conversation]? = none) :
    db.conversation conversation = .error (.unknownConversation conversation) := by
  unfold Database.conversation conversation?
  rw [h]
  dsimp only
  rw [run_of_fails (hreads _ (by simp))]
  rfl

/-- A conversation that is held is known by the title of the first save and the times of the first and the last. -/
lemma conversation_of_holds (hreads : db.Reads conversation)
    (h : Holds db.tables conversation first last) :
    db.conversation conversation =
      .ok ⟨conversation, titleOf first.request.history, first.now, last.now⟩ := by
  obtain ⟨row, hrow, htitle, hcreated, hupdated, -⟩ := h.exists_row
  have hsummary : row.summary? conversation =
      some ⟨conversation, titleOf first.request.history, first.now, last.now⟩ := by
    rw [ConversationRow.summary?, htitle, hcreated, hupdated]
    rfl
  unfold Database.conversation conversation?
  rw [hrow]
  dsimp only
  rw [hsummary]
  dsimp only
  rw [run_of_fails (hreads _ (by simp))]
  rfl

/-- The tree of a conversation that was saved is that of the last history. -/
lemma tree_of_holds (hreads : db.Reads conversation) (h : Holds db.tables conversation first last)
    (hexact : Exact last.request.history) :
    db.tree conversation = .ok (Tree.ofHistory last.request.history) := by
  have hmessages : db.messages conversation =
      .ok (last.request.history.messages.values.map Message.bare) := by
    unfold messages
    rw [run_of_fails (hreads _ (by simp)), h.messagesOf_eq]
    exact readMessages_rows hexact
  have hcurrent : db.current conversation = .ok last.request.history.current := by
    obtain ⟨row, hrow, -, -, -, hcurrent⟩ := h.exists_row
    rw [current, run_of_fails (hreads _ (by simp)), hrow, Option.bind_some, hcurrent]
  unfold tree
  rw [conversation_of_holds hreads h, hmessages, hcurrent, ← Tree.ofMessages_bare h.valid]
  rfl

/-- Nothing is found of a conversation that was never saved. -/
lemma not_found (hreads : db.Reads conversation) (h : db.tables.conversations[conversation]? = none) :
    db.outline conversation = .error (.unknownConversation conversation) ∧
      db.snapshot conversation = .error (.unknownConversation conversation) ∧
      ∀ ids, db.bodies conversation ids = .error (.unknownConversation conversation) := by
  have hmissing := conversation_of_none hreads h
  refine ⟨?_, ?_, fun ids => ?_⟩
  · rw [outline, tree, hmissing]
    rfl
  · rw [snapshot, tree, hmissing]
    rfl
  · rw [bodies, hmissing]
    rfl

/-- The bodies of a conversation that was saved are those of the tree of the last history. -/
lemma bodies_of_holds (hreads : db.Reads conversation) (h : Holds db.tables conversation first last)
    (hexact : Exact last.request.history) (ids : List String) : db.bodies conversation ids =
      .ok (((Tree.ofHistory last.request.history).messages.values.filter fun m =>
        ids.contains m.id).map Message.bare) := by
  rw [bare_ofHistory h.valid fun id => ids.contains id]
  have hwith : db.messagesWith conversation ids =
      .ok ((last.request.history.messages.values.filter fun m => ids.contains m.id).map Message.bare) := by
    unfold messagesWith
    rw [run_of_fails (hreads _ (by simp)), h.messagesOf_eq, List.filter_map]
    exact readMessages_rows fun m hm => hexact m (List.mem_of_mem_filter hm)
  unfold bodies
  rw [conversation_of_holds hreads h, hwith]
  change (if ids.isEmpty then Except.ok [] else _) = _
  split
  next hempty =>
    rw [List.isEmpty_iff.mp hempty]
    simp
  next => rfl

/-- A conversation that was saved is answered for as the tree of the last history. -/
lemma found_of_holds (hreads : db.Reads conversation) (h : Holds db.tables conversation first last)
    (hexact : Exact last.request.history) :
    db.outline conversation = .ok (Tree.ofHistory last.request.history).outline ∧
      db.snapshot conversation = .ok (Tree.ofHistory last.request.history).snapshot := by
  have htree := tree_of_holds hreads h hexact
  constructor
  · rw [outline, htree]
    rfl
  · rw [snapshot, htree]
    rfl

end Database

/-- After any attempts to save, of which some may be refused or fail, reading a conversation finds nothing if
none of the attempts to save it was accepted. Otherwise the outline and the whole conversation are those of the
tree of the last accepted history, and the bodies that are asked for are those of that tree without their
children, each of them once; and the conversation has the title and the time of creation that the first
accepted attempt gave it. -/
theorem answers_afterAll (attempts : List Attempt)
    (hexact : ∀ a ∈ attempts, Exact a.request.history) (conversation : String)
    (fails : Statement → Bool) :
    let db : Database := ⟨Tables.afterAll {} attempts, fails⟩
    let made := (Tables.accepted {} attempts).filter (·.conversation = conversation)
    db.Reads conversation →
      (db.outline conversation = .error (.unknownConversation conversation) ↔ made = []) ∧
      (db.snapshot conversation = .error (.unknownConversation conversation) ↔ made = []) ∧
      (∀ ids, db.bodies conversation ids = .error (.unknownConversation conversation) ↔ made = []) ∧
      ∀ first last, made.head? = some first → made.getLast? = some last →
        db.outline conversation = .ok (Tree.ofHistory last.request.history).outline ∧
        db.snapshot conversation = .ok (Tree.ofHistory last.request.history).snapshot ∧
        (∀ ids, db.bodies conversation ids =
          .ok (((Tree.ofHistory last.request.history).messages.values.filter fun m =>
            ids.contains m.id).map Message.bare)) ∧
        ∃ c, db.conversation conversation = .ok c ∧ c.title = titleOf first.request.history ∧
          c.createdAt = first.now := by
  intro db made hreads
  have hrepresents : Represents db.tables conversation made :=
    represents_afterAll (represents_empty conversation) attempts
  have hlast : ∀ last, made.getLast? = some last → Exact last.request.history := fun last hlast =>
    hexact last (Tables.mem_of_mem_accepted (List.mem_of_mem_filter (List.mem_of_getLast? hlast)))
  -- Without an accepted attempt the tables have no row of the conversation, and with one they hold the last.
  by_cases hmade : made = []
  · obtain ⟨houtline, hsnapshot, hbodies⟩ := Database.not_found hreads (hrepresents.1 hmade)
    refine ⟨iff_of_true houtline hmade, iff_of_true hsnapshot hmade,
      fun ids => iff_of_true (hbodies ids) hmade, fun first last hfirst => ?_⟩
    rw [hmade] at hfirst
    cases hfirst
  · have hholds := hrepresents.2 _ _ (List.head?_eq_some_head hmade)
      (List.getLast?_eq_some_getLast hmade)
    have hexact' := hlast _ (List.getLast?_eq_some_getLast hmade)
    obtain ⟨houtline, hsnapshot⟩ := Database.found_of_holds hreads hholds hexact'
    have hbodies := Database.bodies_of_holds hreads hholds hexact'
    refine ⟨iff_of_false (by simp [houtline]) hmade, iff_of_false (by simp [hsnapshot]) hmade,
      fun ids => iff_of_false (by simp [hbodies ids]) hmade, fun first last hfirst hend => ?_⟩
    have hholds' := hrepresents.2 first last hfirst hend
    obtain ⟨houtline', hsnapshot'⟩ := Database.found_of_holds hreads hholds' (hlast last hend)
    exact ⟨houtline', hsnapshot', Database.bodies_of_holds hreads hholds' (hlast last hend), _,
      Database.conversation_of_holds hreads hholds', rfl, rfl⟩

/-- A question. -/
def asked : History where
  messages := (∅ : IdMap Message).insert "a" (Message.ask "Why?" "a" 1)

/-- The question with the answer to it. -/
def answered : History where
  messages := asked.messages.insert "b"
    { Message.compose .assistant "Because." "b" 2 with parent := some "a", usage := some { elapsed := some 1 } }

/-- A question is saved, then a history whose selected message is missing, which is refused, and then the
question with the answer to it. The outline is that of the last one. -/
theorem answers_afterAll_refused :
    let attempts : List Attempt := [⟨"c", { history := asked }, 1, fun _ => false⟩,
      ⟨"c", { history := { asked with current := some "x" } }, 2, fun _ => false⟩,
      ⟨"c", { history := answered }, 3, fun _ => false⟩]
    let db : Database := ⟨Tables.afterAll {} attempts, fun _ => false⟩
    db.outline "c" = .ok (Tree.ofHistory answered).outline ∧
      ∃ c, db.conversation "c" = .ok c ∧ c.title = "Why?" ∧ c.createdAt = 1 := by
  intro attempts db
  have hmade : (Tables.accepted {} attempts).filter (·.conversation = "c") =
      [⟨"c", { history := asked }, 1, fun _ => false⟩, ⟨"c", { history := answered }, 3, fun _ => false⟩] := by
    rw [Tables.accepted, if_pos (by decide +kernel), Tables.accepted, if_neg (by decide +kernel),
      Tables.accepted, if_pos (by decide +kernel), Tables.accepted]
    rfl
  have hexact : ∀ a ∈ attempts, Exact a.request.history := by
    have hwritten : (attempts.all fun a => a.request.history.messages.values.all fun m =>
        m.usage.all fun u => u.written = u) = true := by decide +kernel
    intro a ha m hm u hu
    have hall := List.all_eq_true.mp (List.all_eq_true.mp hwritten a ha) m hm
    rw [hu, Option.all_some, decide_eq_true_eq] at hall
    rw [Usage.decode_encode, hall]
  obtain ⟨-, -, -, hanswers⟩ :=
    answers_afterAll attempts hexact "c" (fun _ => false) fun _ _ => rfl
  rw [hmade] at hanswers
  obtain ⟨houtline, -, -, c, hc, htitle, hcreated⟩ := hanswers _ _ rfl rfl
  exact ⟨houtline, c, hc, htitle.trans (by decide +kernel), hcreated⟩

end Server

end DialogueSync
