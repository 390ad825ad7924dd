import DialogueSync.Client.Operation
import DialogueSync.Proofs.IdMap

/-!
# What the operations of a session do

For every operation the session that it leads to, case by case, so that nobody has to open the operations
again. An open conversation is taken for granted, and so is that messages are stored under their own ids.

Two states come up in several operations and have names: a response with an increment applied to it (`applied`),
and a session in which a response has just been made complete, cached and saved (`concluded`).
-/

namespace DialogueSync.Client.Session

open Cache (Record)

variable {ρ κ : Type} {s : Session ρ κ} {conversation id : String} {m : Message}

/-! ### What single steps leave alone -/

@[simp] lemma conversation_notify (s : Session ρ κ) : s.notify.conversation = s.conversation :=
  rfl

@[simp] lemma tree_notify (s : Session ρ κ) : s.notify.tree = s.tree :=
  rfl

@[simp] lemma streams_notify (s : Session ρ κ) : s.notify.streams = s.streams :=
  rfl

@[simp] lemma stores_notify (s : Session ρ κ) : s.notify.stores = s.stores :=
  rfl

section Cache

variable [Cache κ]

/-- To cache records changes nothing but the stores. -/
@[simp] lemma conversation_cacheAll (s : Session ρ κ) (records : List Record) :
    (s.cacheAll records).conversation = s.conversation :=
  rfl

@[simp] lemma tree_cacheAll (s : Session ρ κ) (records : List Record) :
    (s.cacheAll records).tree = s.tree :=
  rfl

@[simp] lemma streams_cacheAll (s : Session ρ κ) (records : List Record) :
    (s.cacheAll records).streams = s.streams :=
  rfl

@[simp] lemma stores_cacheAll (s : Session ρ κ) (records : List Record) :
    (s.cacheAll records).stores = (s.stores.store records).2 :=
  rfl

@[simp] lemma saveRequest_cacheAll (s : Session ρ κ) (records : List Record) :
    (s.cacheAll records).saveRequest = s.saveRequest :=
  rfl

end Cache

section Remote

variable [Remote ρ]

/-- Saving changes the stores, and otherwise at most queues a notice. -/
lemma save_cases (s : Session ρ κ) (conversation : String) :
    ∃ notices, s.save conversation =
      { s with stores := (s.stores.save conversation s.saveRequest).2, notices := notices } := by
  unfold save
  dsimp only
  split
  · exact ⟨s.notices, rfl⟩
  next e heq => exact ⟨_, rfl⟩

/-- To save changes nothing but the stores and the notices. -/
@[simp] lemma conversation_save (s : Session ρ κ) (conversation : String) :
    (s.save conversation).conversation = s.conversation := by
  obtain ⟨notices, h⟩ := s.save_cases conversation
  rw [h]

@[simp] lemma tree_save (s : Session ρ κ) (conversation : String) :
    (s.save conversation).tree = s.tree := by
  obtain ⟨notices, h⟩ := s.save_cases conversation
  rw [h]

@[simp] lemma streams_save (s : Session ρ κ) (conversation : String) :
    (s.save conversation).streams = s.streams := by
  obtain ⟨notices, h⟩ := s.save_cases conversation
  rw [h]

/-- What is saved is the request of the session. -/
@[simp] lemma stores_save (s : Session ρ κ) (conversation : String) :
    (s.save conversation).stores = (s.stores.save conversation s.saveRequest).2 := by
  obtain ⟨notices, h⟩ := s.save_cases conversation
  rw [h]

@[simp] lemma revision_save (s : Session ρ κ) (conversation : String) :
    (s.save conversation).revision = s.revision := by
  obtain ⟨notices, h⟩ := s.save_cases conversation
  rw [h]

@[simp] lemma saveRequest_save (s : Session ρ κ) (conversation : String) :
    (s.save conversation).saveRequest = s.saveRequest := by
  obtain ⟨notices, h⟩ := s.save_cases conversation
  rw [h]
  rfl

end Remote

/-! ### Attaching -/

/-- The session in which a message has just been attached, giving this tree, and is not cached yet. -/
def attached (s : Session ρ κ) (tree : Tree) (m : Message) : Session ρ κ :=
  { s with
    tree := tree.select m.id
    streams := if m.done || s.streams.isActive m.id then s.streams
      else s.streams.start m.id s.stores.clock }

/-- Attaching selects a message, which changes none. -/
lemma get?_attached (s : Session ρ κ) (tree : Tree) (m : Message) (id : String) :
    (s.attached tree m).tree.get? id = tree.get? id := by
  change (tree.select m.id).messages[id]? = tree.messages[id]?
  rw [Tree.messages_select]

/-- A message that the tree refuses is refused, and the session stays as it is. -/
lemma attach_of_error [Cache κ] (hopen : s.conversation = some conversation) {parent : Option String}
    {e : Failure} (h : s.tree.insert parent m = .error e) : s.attach parent m = (.error e, s) := by
  unfold attach
  rw [hopen]
  simp only [h]

/-- A message that the tree takes is selected, noted as in flight unless it is complete, and cached. -/
lemma attach_of_ok [Cache κ] (hopen : s.conversation = some conversation) {parent : Option String}
    {tree : Tree} (h : s.tree.insert parent m = .ok tree) :
    s.attach parent m = (.ok (), ((s.attached tree m).cacheAll
      ((s.attached tree m).attachedRecords conversation m.id)).notify) := by
  unfold attach
  split
  next hnone =>
    rw [hopen] at hnone
    cases hnone
  next conversation' heq =>
    obtain rfl := Option.some.inj (heq.symm.trans hopen)
    simp only [h]
    rfl

/-- A response that is attached counts as in flight. -/
lemma isActive_attached (s : Session ρ κ) (tree : Tree) (hm : m.done = false) :
    (s.attached tree m).streams.isActive m.id := by
  unfold attached
  dsimp only
  split
  next h => simpa [hm] using h
  next => exact Streams.isActive_start _ _ _

/-- What is cached for a message that is attached are messages of the tree. -/
lemma exists_of_mem_attachedRecords {r : Record}
    (hr : r ∈ s.attachedRecords conversation id) :
    ∃ (x : String) (m : Message), s.tree.get? x = some m ∧ r = s.recordOf conversation m := by
  unfold attachedRecords at hr
  split at hr
  · cases hr
  next m hm =>
    obtain ⟨m', hm', rfl⟩ := List.mem_map.mp hr
    rcases List.mem_append.mp hm' with hparent | hself
    · obtain ⟨p, -, hp⟩ := Option.bind_eq_some_iff.mp (Option.mem_toList.mp hparent)
      exact ⟨p, m', hp, rfl⟩
    · obtain rfl := List.mem_singleton.mp hself
      exact ⟨id, m', hm, rfl⟩

/-- A message that is attached is among what is cached for it. -/
lemma recordOf_mem_attachedRecords (h : s.tree.get? id = some m) (conversation : String) :
    s.recordOf conversation m ∈ s.attachedRecords conversation id := by
  unfold attachedRecords
  rw [h]
  exact List.mem_map_of_mem (List.mem_append_right _ (List.mem_singleton_self m))

/-! ### Making a response complete -/

/-- The message of a session with the figures that can be derived, complete. -/
def completed (s : Session ρ κ) (m : Message) : Message :=
  Streams.complete m s.streams[m.id]? (s.pricingOf m) s.stores.clock

@[simp] lemma id_completed (s : Session ρ κ) (m : Message) : (s.completed m).id = m.id :=
  rfl

@[simp] lemma content_completed (s : Session ρ κ) (m : Message) :
    (s.completed m).content = m.content :=
  rfl

@[simp] lemma done_completed (s : Session ρ κ) (m : Message) : (s.completed m).done = true :=
  rfl

/-- The session in which a response has been made complete, and is neither cached nor saved yet. -/
def settled (s : Session ρ κ) (m : Message) : Session ρ κ :=
  { s with
    tree := s.tree.setBody (s.completed m)
    streams := s.streams.erase m.id }.notify

section Remote

variable [Remote ρ] [Cache κ]

/-- The session after a response is made complete, cached and saved. -/
def concluded (s : Session ρ κ) (conversation : String) (m : Message) : Session ρ κ :=
  ((s.settled m).cacheAll [s.recordOf conversation (s.completed m)]).save conversation

@[simp] lemma conversation_concluded (s : Session ρ κ) (conversation : String) (m : Message) :
    (s.concluded conversation m).conversation = s.conversation := by
  simp [concluded, settled]

/-- The complete message takes the place of the response. -/
@[simp] lemma tree_concluded (s : Session ρ κ) (conversation : String) (m : Message) :
    (s.concluded conversation m).tree = s.tree.setBody (s.completed m) := by
  simp [concluded, settled]

@[simp] lemma streams_concluded (s : Session ρ κ) (conversation : String) (m : Message) :
    (s.concluded conversation m).streams = s.streams.erase m.id := by
  simp [concluded, settled]

/-- Making a response complete is a change that is seen. -/
@[simp] lemma revision_concluded (s : Session ρ κ) (conversation : String) (m : Message) :
    (s.concluded conversation m).revision = s.revision + 1 := by
  rw [concluded, revision_save]
  rfl

/-- The response is cached, and then the conversation saved as it is now. -/
lemma stores_concluded (s : Session ρ κ) (conversation : String) (m : Message) :
    (s.concluded conversation m).stores =
      ((s.stores.store [s.recordOf conversation (s.completed m)]).2.save conversation
        (s.settled m).saveRequest).2 := by
  rw [concluded, stores_save, stores_cacheAll, saveRequest_cacheAll]
  rfl

/-- There is no response to finish under an id that is missing. -/
lemma finish_of_none (hopen : s.conversation = some conversation) (h : s.tree.get? id = none) :
    s.finish id = (.error (.unknownMessage id), s) := by
  unfold finish
  rw [hopen]
  simp only [h]

/-- Nothing happens to a response that is complete and not in flight. -/
lemma finish_of_done (hopen : s.conversation = some conversation) (h : s.tree.get? id = some m)
    (hdone : m.done = true) (hactive : s.streams.isActive m.id = false) :
    s.finish id = (.ok (), s) := by
  have hstreams : s.streams.finish m (s.pricingOf m) s.stores.clock = (false, m, s.streams) := by
    rw [Streams.finish, if_pos (by rw [hdone, hactive]; rfl)]
  unfold finish
  rw [hopen]
  simp only [h, hstreams]

/-- A response that is not complete, or still in flight, is made complete, cached and saved. -/
lemma finish_of_open (hopen : s.conversation = some conversation) (h : s.tree.get? id = some m)
    (hm : m.done = false ∨ s.streams.isActive m.id) :
    s.finish id = (.ok (), s.concluded conversation m) := by
  have hstreams : s.streams.finish m (s.pricingOf m) s.stores.clock =
      (true, s.completed m, s.streams.erase m.id) := by
    rw [Streams.finish, if_neg (by rcases hm with hm | hm <;> simp [hm])]
    rfl
  unfold finish
  split
  next hnone =>
    rw [hopen] at hnone
    cases hnone
  next conversation' heq =>
    obtain rfl := Option.some.inj (heq.symm.trans hopen)
    simp only [h, hstreams]
    rfl

/-! ### Increments -/

/-- The session after an increment is applied to a response. -/
def applied (s : Session ρ κ) (m : Message) (d : Delta) : Session ρ κ :=
  { s with
    tree := s.tree.setBody (d.applyTo m)
    streams := s.streams.insert m.id (Streams.timingAfter s.streams[m.id]? d s.stores.clock) }

/-- An increment of a response that is missing is refused. -/
lemma receive_of_none (h : s.tree.get? id = none) (d : Delta) :
    s.receive id d = (.error (.unknownMessage id), s) := by
  unfold receive
  rw [h]

/-- An increment of a complete response is ignored. -/
lemma receive_of_done (h : s.tree.get? id = some m) (hdone : m.done = true) (d : Delta) :
    s.receive id d = (.ok .ignored, s) := by
  unfold receive
  rw [h]
  simp only [Streams.apply_of_done hdone]

/-- An increment that is not the last one is applied, and nothing else happens. -/
lemma receive_of_open (h : s.tree.get? id = some m) (hm : m.done = false) {d : Delta}
    (hd : d.done = false) : s.receive id d = (.ok .applied, (s.applied m d).notify) := by
  have hstreams : s.streams.apply m d s.stores.clock = (.applied, d.applyTo m,
      s.streams.insert m.id (Streams.timingAfter s.streams[m.id]? d s.stores.clock)) := by
    simp [Streams.apply, hm, hd]
  unfold receive
  rw [h]
  simp only [hstreams]
  rfl

/-- The last increment of a response is applied, and the response is made complete. -/
lemma receive_of_last (hopen : s.conversation = some conversation)
    (hkeyed : IdMap.Keyed Message.id s.tree.messages) (h : s.tree.get? id = some m)
    (hm : m.done = false) {d : Delta} (hd : d.done = true) :
    s.receive id d =
      (.ok .finished, (s.applied m d).concluded conversation (d.applyTo m)) := by
  have hstreams : s.streams.apply m d s.stores.clock = (.finished, d.applyTo m,
      s.streams.insert m.id (Streams.timingAfter s.streams[m.id]? d s.stores.clock)) := by
    simp [Streams.apply, hm, hd]
  have hid : m.id = id := hkeyed id m h
  have hget : (s.applied m d).tree.get? id = some (d.applyTo m) := by
    change (s.tree.messages.modify m.id fun _ => d.applyTo m)[id]? = _
    rw [Std.ExtTreeMap.getElem?_modify, hid, if_pos (Std.compare_eq_iff_eq.mpr rfl)]
    rw [show s.tree.messages[id]? = some m from h]
    rfl
  have hfinish : (s.applied m d).finish id =
      (.ok (), (s.applied m d).concluded conversation (d.applyTo m)) :=
    finish_of_open hopen hget (Or.inl hm)
  unfold receive
  rw [h]
  simp only [hstreams]
  change ((((s.applied m d).finish id).1.map fun _ => Outcome.finished), ((s.applied m d).finish id).2) = _
  rw [hfinish]
  rfl

/-- No increment but the last one touches the stores. -/
lemma stores_receive (s : Session ρ κ) (id : String) {d : Delta} (hd : d.done = false) :
    (s.receive id d).2.stores = s.stores := by
  cases hm : s.tree.get? id with
  | none => rw [receive_of_none hm]
  | some m =>
    cases hdone : m.done with
    | true => rw [receive_of_done hm hdone]
    | false =>
      rw [receive_of_open hm hdone hd]
      rfl

/-! ### Deleting -/

/-- The session after a message is taken out with everything below it, and the cache brought up to date. -/
def cleared (s : Session ρ κ) (conversation id : String) : Session ρ κ :=
  { s with
    tree := s.tree.remove id
    streams := ((s.tree.subtree id).map Message.id).foldl Streams.forget s.streams
    stores := (s.stores.overwrite conversation
      ((s.tree.remove id).messages.values.map (s.recordOf conversation))).2 }

/-- A message that is missing cannot be deleted. -/
lemma delete_of_not_mem (hopen : s.conversation = some conversation)
    (h : s.tree.contains id = false) : s.delete id = (.error (.unknownMessage id), s) := by
  unfold delete
  rw [hopen]
  simp only [h]
  rfl

/-- A message that is there is taken out, and the conversation saved. -/
lemma delete_of_mem (hopen : s.conversation = some conversation) (h : s.tree.contains id = true) :
    s.delete id = (.ok (), (s.cleared conversation id).notify.save conversation) := by
  unfold delete
  split
  next hnone =>
    rw [hopen] at hnone
    cases hnone
  next conversation' heq =>
    obtain rfl := Option.some.inj (heq.symm.trans hopen)
    exact if_pos h

/-! ### Loading -/

/-- If synchronising the open conversation succeeds, what is in flight is carried over. -/
lemma load_of_ok {tree : Tree} {report : Report} {stores : Stores ρ κ}
    (hopen : s.conversation = some conversation)
    (h : s.stores.refresh conversation = (.ok (tree, report), stores)) :
    s.load conversation = { s with
      stores := stores
      tree := carryInFlight s.tree s.streams tree
      report := some report }.notify := by
  have hhere : ({ s with stores := stores } : Session ρ κ).isElsewhere conversation = false := by
    simp [isElsewhere, hopen]
  unfold load
  rw [h]
  exact if_neg (by rw [hhere]; exact Bool.false_ne_true)

/-- If synchronising the open conversation fails, it stays as it is and a notice is queued. -/
lemma load_of_error {e : Failure} {stores : Stores ρ κ} (hopen : s.conversation = some conversation)
    (h : s.stores.refresh conversation = (.error e, stores)) :
    s.load conversation = { s with
      stores := stores
      notices := s.notices ++ ["Could not refresh conversation: " ++ e.message] } := by
  have hhere : (({ s with stores := stores } : Session ρ κ).addNotice
      ("Could not refresh conversation: " ++ e.message)).isElsewhere conversation = false := by
    simp [isElsewhere, addNotice, hopen]
  unfold load
  rw [h]
  exact if_neg (by rw [hhere]; exact Bool.false_ne_true)

/-- If synchronising another conversation succeeds, it is opened with nothing in flight. -/
lemma load_elsewhere {tree : Tree} {report : Report} {stores : Stores ρ κ}
    (hopen : s.isElsewhere conversation)
    (h : s.stores.refresh conversation = (.ok (tree, report), stores)) :
    s.load conversation =
      ({ s with stores := stores } : Session ρ κ).openWith conversation tree (some report) := by
  unfold load
  rw [h]
  exact if_pos hopen

/-- If synchronising another conversation fails, it is opened from the cache and a notice is queued. -/
lemma load_offline {e : Failure} {stores : Stores ρ κ} (hopen : s.isElsewhere conversation)
    (h : s.stores.refresh conversation = (.error e, stores)) :
    s.load conversation = ({ s with
      stores := stores
      notices := s.notices ++ ["Could not refresh conversation: " ++ e.message] } :
        Session ρ κ).openOffline conversation := by
  unfold load
  rw [h]
  exact if_pos hopen

end Remote

/-! ### Clearing the cache -/

/-- Clearing the cache changes no more of the stores than the cache and what is noted about it. -/
lemma stores_recoverCache [Cache κ] (s : Session ρ κ) :
    ∃ degraded, s.recoverCache.2.stores = { s.stores.callClear.2 with degraded := degraded } := by
  change ∃ degraded, s.stores.recover.2 = { s.stores.callClear.2 with degraded := degraded }
  unfold Stores.recover
  split
  next t heq => exact ⟨false, by rw [heq]⟩
  next t heq => exact ⟨t.degraded, by rw [heq]⟩

end DialogueSync.Client.Session
