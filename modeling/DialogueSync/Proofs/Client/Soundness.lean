import DialogueSync.Proofs.Client.Effects

/-!
# Sound sessions

Whatever is done with a session that shows nothing, and whatever the stores answer, its tree is linked, and
messages are only shown while a conversation is open (`Sound.runTimed`).

What any operation can do to a sound session is said once, as the relation `Move`: it stays with the open
conversation, opens one, or finds none open (`Sound.move_after`).
-/

namespace DialogueSync.Client

open DialogueSync.Tree (Linked)

variable {ρ κ : Type} [Remote ρ] [Cache κ] {conversation : String}

/-! ### What comes of synchronising -/

/-- Whatever comes of synchronising is well-formed. -/
lemma Stores.wellFormed_of_refresh {s s' : Stores ρ κ} {tree : Tree} {report : Report}
    (h : s.refresh conversation = (.ok (tree, report), s')) : tree.WellFormed := by
  have hwhole : ∀ {s s' : Stores ρ κ},
      s.refreshWhole conversation = (.ok (tree, report), s') → tree.WellFormed := by
    intro s s' h
    obtain ⟨e, hreply, -⟩ | ⟨full, asked, -, hreply, -⟩ := Stores.refreshWhole_cases h
    · cases hreply
    · obtain ⟨rfl, -⟩ := Prod.mk.inj (Except.ok.inj hreply)
      exact Tree.wellFormed_ofMessages _ _
  rcases Stores.refresh_cases h with ⟨-, p, hreply⟩ | ⟨-, e, failed, -, hfailed⟩ | ⟨-, hdegraded⟩
  · obtain ⟨rfl, -⟩ := Prod.mk.inj (Except.ok.inj hreply)
    exact Tree.wellFormed_ofMessages _ _
  · exact hwhole hfailed
  · exact hwhole hdegraded

namespace Session

variable {s s' : Session ρ κ} {op : Operation}

/-! ### What an operation can do to any session -/

/-- The operation is about a message of the open conversation, so that it is refused if there is none. -/
def NeedsOpen : Operation → Prop
  | .attach .. | .receive .. | .finish _ | .stop _ | .delete _ => True
  | .startNew _ | .load _ | .select _ | .noteRequest .. | .recoverCache => False

/-- What an operation can do to a session. -/
inductive Move (s : Session ρ κ) : Operation → Session ρ κ → Prop where
  /-- The session stays with its conversation. -/
  | remain {conversation : String} {op : Operation} {s' : Session ρ κ}
      (hopen : s.conversation = some conversation) (hremains : Remains conversation op)
      (h : Step conversation s op s') : Move s op s'
  /-- Without a conversation an operation on it is refused. -/
  | refuse {op : Operation} (hnone : s.conversation = none) (hneeds : NeedsOpen op) : Move s op s
  /-- Without a conversation nothing can be selected. -/
  | select (hnone : s.conversation = none) (id : String) : Move s (.select id) (s.select id)
  /-- Without a conversation it is noted that a request was sent. -/
  | noteRequest (hnone : s.conversation = none) (id : String) (sentAt : Int64) :
      Move s (.noteRequest id sentAt) (s.noteRequest id sentAt)
  /-- Without a conversation the cache is cleared. -/
  | recoverCache (hnone : s.conversation = none) : Move s .recoverCache s.recoverCache.2
  /-- A new conversation is opened. -/
  | startNew (conversation : String) : Move s (.startNew conversation) (s.startNew conversation)
  /-- Another conversation is synchronised and opened. -/
  | switch {conversation : String} (helsewhere : s.isElsewhere conversation) {tree : Tree} {report : Report}
      {stores : Stores ρ κ} (h : s.stores.refresh conversation = (.ok (tree, report), stores)) :
      Move s (.load conversation)
        (({ s with stores := stores } : Session ρ κ).openWith conversation tree (some report))
  /-- Another conversation cannot be synchronised, and is opened from the cache. -/
  | switchOffline {conversation : String} (helsewhere : s.isElsewhere conversation) {e : Failure}
      {stores : Stores ρ κ} (h : s.stores.refresh conversation = (.error e, stores)) :
      Move s (.load conversation) (({ s with
        stores := stores
        notices := s.notices ++ ["Could not refresh conversation: " ++ e.message] } :
          Session ρ κ).openOffline conversation)

/-- Loading a conversation that is not open is such a move. -/
lemma move_load (h : s.isElsewhere conversation) : Move s (.load conversation) (s.load conversation) := by
  cases hrefresh : s.stores.refresh conversation with
  | mk reply stores =>
    cases reply with
    | ok outcome =>
      rw [load_elsewhere h hrefresh]
      exact .switch h hrefresh
    | error e =>
      rw [load_offline h hrefresh]
      exact .switchOffline h hrefresh

/-- Without a conversation, and so without messages, every operation is such a move. -/
lemma move_after_of_none (hnone : s.conversation = none) (hempty : s.tree.messages = ∅) (op : Operation) :
    Move s op (s.after op) := by
  cases op with
  | startNew conversation => exact .startNew conversation
  | load conversation => exact move_load (by simp [isElsewhere, hnone])
  | select id => exact .select hnone id
  | noteRequest id sentAt => exact .noteRequest hnone id sentAt
  | recoverCache => exact .recoverCache hnone
  | receive id d =>
    change Move s _ (s.receive id d).2
    rw [receive_of_none (by rw [Tree.get?, hempty, Std.ExtTreeMap.getElem?_empty])]
    exact .refuse hnone trivial
  | attach parent m =>
    change Move s _ (s.attach parent m).2
    unfold attach
    rw [hnone]
    exact .refuse hnone trivial
  | finish id =>
    change Move s _ (s.finish id).2
    unfold finish
    rw [hnone]
    exact .refuse hnone trivial
  | stop id =>
    change Move s _ (s.finish id).2
    unfold finish
    rw [hnone]
    exact .refuse hnone trivial
  | delete id =>
    change Move s _ (s.delete id).2
    unfold delete
    rw [hnone]
    exact .refuse hnone trivial

/-! ### Soundness -/

/-- The tree of the session is linked, and there is none without a conversation. -/
structure Sound (s : Session ρ κ) : Prop where
  /-- The tree is linked. -/
  linked : Linked s.tree.messages
  /-- Without a conversation there is no message. -/
  eq_empty : s.conversation = none → s.tree.messages = ∅

namespace Sound

omit [Remote ρ] [Cache κ] in
lemma atTime (h : Sound s) (now : Int64) : Sound (s.atTime now) :=
  ⟨h.linked, h.eq_empty⟩

omit [Remote ρ] [Cache κ] in
/-- A session that shows nothing is sound. -/
lemma of_eq_empty (h : s.tree.messages = ∅) : Sound s :=
  ⟨h.symm ▸ Tree.grounded_empty.toLinked, fun _ => h⟩

/-- Every operation on a sound session is such a move. -/
theorem move_after (h : Sound s) (op : Operation) : Move s op (s.after op) := by
  cases hopen : s.conversation with
  | some conversation =>
    by_cases hremains : Remains conversation op
    · exact .remain hopen hremains (step_after hopen h.linked.keyed hremains)
    · cases op with
      | startNew x => exact .startNew x
      | load x =>
        have hne : conversation ≠ x := fun heq => hremains heq.symm
        exact move_load (by simpa [isElsewhere, hopen] using hne)
      | _ => exact absurd trivial hremains
  | none => exact move_after_of_none hopen (h.eq_empty hopen) op

/-- Every move leaves a session sound. -/
lemma of_move (h : Sound s) (hmove : Move s op s') : Sound s' := by
  cases hmove with
  | @remain conversation _ _ hopen hremains hstep =>
    have htree := (hstep.treeStep h.linked.keyed).throughout (P := fun _ => True)
      ⟨h.linked, fun _ _ _ => trivial⟩ (fun _ _ _ _ => trivial)
      ⟨fun _ _ _ => trivial, fun _ _ _ _ => trivial⟩
      fun tree report stores _ hrefresh =>
        ⟨(Stores.wellFormed_of_refresh hrefresh).toLinked, fun _ _ _ => trivial⟩
    refine ⟨htree.linked, fun hnone => ?_⟩
    rw [hstep.conversation_eq, hopen] at hnone
    cases hnone
  | refuse => exact h
  | select hnone id => exact of_eq_empty ((Tree.messages_select s.tree id).trans (h.eq_empty hnone))
  | noteRequest hnone => exact of_eq_empty (h.eq_empty hnone)
  | recoverCache hnone => exact of_eq_empty (h.eq_empty hnone)
  | startNew => exact ⟨Tree.grounded_empty.toLinked, fun hnone => by cases hnone⟩
  | switch _ hrefresh =>
    exact ⟨(Stores.wellFormed_of_refresh hrefresh).toLinked, fun hnone => by cases hnone⟩
  | switchOffline =>
    exact ⟨(Tree.wellFormed_ofMessages _ _).toLinked, fun hnone => by cases hnone⟩

/-- Every operation leaves a session sound. -/
theorem after (h : Sound s) (op : Operation) : Sound (s.after op) :=
  h.of_move (h.move_after op)

/-- A session goes on to be sound. -/
theorem runTimed (h : Sound s) (events : List Event) : Sound (s.runTimed events) := by
  induction events generalizing s with
  | nil => exact h
  | cons e events ih => exact ih ((h.atTime e.now).after e.op)

end Sound

end Session

end DialogueSync.Client
