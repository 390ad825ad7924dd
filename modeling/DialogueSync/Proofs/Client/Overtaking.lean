import DialogueSync.Cache.Memory
import DialogueSync.Proofs.Client.Soundness
import DialogueSync.Remote.Archive
import DialogueSync.Remote.Scripted

/-!
# Overtaken responses

Finishing a complete message that is not in flight does nothing. A response that the session completes itself
is not in flight any more, but a response in flight can also be *overtaken*: a complete copy of its message
comes in while it is in flight, with a reload of the open conversation or because the copy is attached. The
response then stays in flight, and to finish or stop it is to complete and save it a second time.

What makes a message overtaken and what ends this is said once for all operations (`Overtakes`, `Settles`), and
after a run a complete message can be finished without any effect exactly if it is not overtaken
(`finish_eq_self_iff`).
-/

namespace DialogueSync.Client

open Cache (Memory)
open DialogueSync.Tree (Linked isWithin)

variable {opened synced t t' : Tree} {id : String} {m : Message}

/-! ### Complete messages of a tree -/

lemma hasDone_congr (h : t'.messages = t.messages) : HasDone t' id ↔ HasDone t id := by
  unfold HasDone Tree.get?
  rw [h]

lemma not_hasDone_of_eq_empty (h : t.messages = ∅) : ¬ HasDone t id := by
  rintro ⟨m, hm, -⟩
  rw [Tree.get?, h, Std.ExtTreeMap.getElem?_empty] at hm
  cases hm

/-- After attaching a message this one is complete if it was attached so, and every other one if it was so
before. -/
lemma hasDone_insert_iff (ht : Linked t.messages) {parent : Option String}
    (hinsert : t.insert parent m = .ok t') :
    HasDone t' id ↔ if id = m.id then m.done = true else HasDone t id := by
  rw [hasDone_iff_any, hasDone_iff_any, Tree.get?_insert ht hinsert]
  by_cases hid : id = m.id
  · simp [hid, Tree.hung]
  · rw [if_neg hid, if_neg hid, Option.any_map]

/-- A body that is put in its place counts from then on. -/
lemma hasDone_setBody_iff {old : Message} (hold : t.get? m.id = some old) :
    HasDone (t.setBody m) id ↔ if id = m.id then m.done = true else HasDone t id := by
  rw [hasDone_iff_any, hasDone_iff_any, Tree.get?_setBody]
  by_cases hid : id = m.id
  · simp [hid, hold]
  · simp [hid]

/-- What is taken out is gone, and what is left is complete if it was so before. -/
lemma hasDone_remove_iff (ht : Linked t.messages) {x : String} (hx : x ∈ t.messages) :
    HasDone (t.remove x) id ↔ HasDone t id ∧ ¬ isWithin t.messages id x := by
  by_cases hwithin : isWithin t.messages id x
  · refine iff_of_false ?_ fun h => h.2 hwithin
    rintro ⟨m, hm, -⟩
    rw [Tree.remove_of_mem ht hx] at hm
    change (Tree.relinkAll (Tree.without t.messages x))[id]? = some m at hm
    rw [Tree.getElem?_relinkAll, Tree.getElem?_without, if_pos hwithin] at hm
    cases hm
  · rw [and_iff_left hwithin]
    constructor
    · rintro ⟨m, hm, hdone⟩
      obtain ⟨old, hold, hsame, -⟩ := Tree.exists_of_get?_remove ht hm
      exact ⟨old, hold, hsame.done_eq.trans hdone⟩
    · rintro ⟨m, hm, hdone⟩
      obtain ⟨m', hm', hsame⟩ := Tree.exists_get?_remove ht hm hwithin
      exact ⟨m', hm', hsame.done_eq.symm.trans hdone⟩

namespace Session

variable {ρ κ : Type} {s s' : Session ρ κ} {conversation : String} {op : Operation}

/-- Attaching a message that is complete changes nothing about what is in flight. -/
lemma streams_attached_of_done (s : Session ρ κ) (tree : Tree) (h : m.done = true) :
    (s.attached tree m).streams = s.streams := by
  unfold attached
  dsimp only
  rw [h, Bool.true_or, if_pos rfl]

/-! ### Overtaken messages -/

/-- The message is complete, and in flight nevertheless. -/
def Overtaken (id : String) (s : Session ρ κ) : Prop :=
  s.streams.isActive id ∧ HasDone s.tree id

lemma not_overtaken_of_streams (h : s.streams = ∅) : ¬ Overtaken id s := by
  intro hs
  rw [Overtaken, h] at hs
  exact absurd hs.1 (by simp [Streams.isActive])

/-- All that counts is whether the response is tracked and whether the tree has it complete. -/
lemma overtaken_congr (hactive : s'.streams.isActive id = s.streams.isActive id)
    (hdone : HasDone s'.tree id ↔ HasDone s.tree id) : Overtaken id s' ↔ Overtaken id s := by
  unfold Overtaken
  rw [hactive, hdone]

/-- A message that is attached is overtaken afterwards exactly if it is complete and was in flight. -/
lemma overtaken_attached_iff (hlinked : Linked s.tree.messages) {parent : Option String} {tree : Tree}
    (hinsert : s.tree.insert parent m = .ok tree) (id : String) : Overtaken id (s.attached tree m) ↔
      if m.id = id then m.done = true ∧ s.streams.isActive id else Overtaken id s := by
  have htree : HasDone (s.attached tree m).tree id ↔
      if id = m.id then m.done = true else HasDone s.tree id := by
    rw [← hasDone_insert_iff hlinked hinsert]
    exact hasDone_congr (Tree.messages_select tree m.id)
  unfold Overtaken
  rw [htree]
  by_cases hid : m.id = id
  · rw [if_pos hid, if_pos hid.symm, and_comm]
    refine and_congr_right fun hdone => ?_
    rw [streams_attached_of_done s tree hdone]
  · rw [if_neg hid, if_neg (Ne.symm hid), isActive_attached_of_ne s tree hid]

/-- A message that is rewritten is not overtaken afterwards if it is then either not complete or not in
flight. -/
lemma overtaken_rewritten_iff {m' : Message} (hm : s.tree.get? m.id = some m)
    (htree : s'.tree = s.tree.setBody m') (hid : m'.id = m.id)
    (hself : ¬ (s'.streams.isActive m.id ∧ m'.done = true))
    (hother : m.id ≠ id → s'.streams.isActive id = s.streams.isActive id) :
    Overtaken id s' ↔ m.id ≠ id ∧ Overtaken id s := by
  have hm' : s.tree.get? m'.id = some m := hid ▸ hm
  unfold Overtaken
  rw [htree, hasDone_setBody_iff hm', hid]
  by_cases hx : m.id = id
  · subst hx
    rw [if_pos rfl]
    exact iff_of_false hself fun h => h.1 rfl
  · rw [if_neg (Ne.symm hx), hother hx, and_iff_right hx]

/-- A message that is not complete is not overtaken. -/
lemma id_ne_of_overtaken (hm : s.tree.get? m.id = some m) (hdone : m.done = false) (h : Overtaken id s) :
    m.id ≠ id := by
  rintro rfl
  obtain ⟨-, m', hm', hdone'⟩ := h
  obtain rfl := Option.some.inj (hm.symm.trans hm')
  rw [hdone] at hdone'
  cases hdone'

/-- Taking a message out ends that it, and what is below it, is overtaken. -/
lemma overtaken_cleared_iff [Cache κ] (hlinked : Linked s.tree.messages) {x : String} (hx : x ∈ s.tree.messages) :
    Overtaken id (s.cleared conversation x) ↔ ¬ isWithin s.tree.messages id x ∧ Overtaken id s := by
  have htree : HasDone (s.cleared conversation x).tree id ↔
      HasDone s.tree id ∧ ¬ isWithin s.tree.messages id x := hasDone_remove_iff hlinked hx
  have hstreams : ¬ isWithin s.tree.messages id x →
      (s.cleared conversation x).streams.isActive id = s.streams.isActive id := by
    refine fun hnot => isActive_foldl_forget fun hid => hnot ?_
    obtain ⟨m, hm, rfl⟩ := List.mem_map.mp hid
    exact ((Tree.mem_subtree_iff hlinked hx).mp hm).2
  unfold Overtaken
  rw [htree]
  constructor
  · rintro ⟨hactive, hdone, hnot⟩
    exact ⟨hnot, hstreams hnot ▸ hactive, hdone⟩
  · rintro ⟨hnot, hactive, hdone⟩
    exact ⟨(hstreams hnot).symm ▸ hactive, hdone, hnot⟩

/-! ### Overtaking and settling -/

variable [Remote ρ] [Cache κ]

/-- The operation makes the message overtaken: it brings a complete copy into the open conversation while the
response is in flight, or notes a request for a response that is complete. -/
def Overtakes (id : String) (s : Session ρ κ) : Operation → Prop
  | .load conversation => s.conversation = some conversation ∧ s.streams.isActive id ∧
    ∃ tree report, (s.stores.refresh conversation).1 = .ok (tree, report) ∧ HasDone tree id
  | .attach parent m => s.conversation ≠ none ∧ ¬ Idle s (.attach parent m) ∧ m.id = id ∧
    m.done = true ∧ s.streams.isActive id
  | .noteRequest x _ => x = id ∧ HasDone s.tree id
  | .startNew _ | .select _ | .receive .. | .finish _ | .stop _ | .delete _ | .recoverCache => False

/-- The operation ends that a message is overtaken: it finishes the response, takes the message out, attaches
it anew, reloads the conversation without it, or opens another one. -/
def Settles (id : String) (s : Session ρ κ) : Operation → Prop
  | .startNew _ => True
  | .load conversation => s.isElsewhere conversation ∨
    ∃ tree report, (s.stores.refresh conversation).1 = .ok (tree, report) ∧
      ¬ HasDone (carryInFlight s.tree s.streams tree) id
  | .attach parent m => s.conversation ≠ none ∧ ¬ Idle s (.attach parent m) ∧ m.id = id ∧ m.done = false
  | .finish x | .stop x => x = id
  | .delete x => ¬ Idle s (.delete x) ∧ isWithin s.tree.messages id x
  | .select _ | .noteRequest .. | .receive .. | .recoverCache => False

/-! ### Steps -/

/-- An operation for which there is nothing to do leaves a message overtaken or not. -/
lemma overtaken_iff_of_idle (hkeyed : IdMap.Keyed Message.id s.tree.messages) (h : Idle s op) :
    Overtaken id s ↔ Overtakes id s op ∨ ¬ Settles id s op ∧ Overtaken id s := by
  have hfinish : ∀ x, (∀ m, s.tree.get? x = some m → m.done = true ∧ s.streams.isActive m.id = false) →
      Overtaken id s → x ≠ id := by
    rintro x hall ⟨hactive, m, hm, -⟩ rfl
    obtain rfl : m.id = x := hkeyed x m hm
    rw [(hall m hm).2] at hactive
    cases hactive
  have hkeep : ¬ Overtakes id s op ∧ (Overtaken id s → ¬ Settles id s op) := by
    cases op with
    | attach => exact ⟨fun hop => hop.2.1 h, fun _ hop => hop.2.1 h⟩
    | receive => exact ⟨not_false, fun _ => not_false⟩
    | finish x => exact ⟨not_false, hfinish x h⟩
    | stop x => exact ⟨not_false, hfinish x h⟩
    | delete x => exact ⟨not_false, fun _ hop => hop.1 h⟩
    | _ => exact h.elim
  rw [or_iff_right hkeep.1]
  exact ⟨fun hs => ⟨hkeep.2 hs, hs⟩, And.right⟩

/-- An operation that neither makes a message overtaken nor ends this changes nothing about it. -/
lemma overtaken_iff_of_neither (hnot : ¬ Overtakes id s op) (hnot' : ¬ Settles id s op)
    (hsame : Overtaken id s' ↔ Overtaken id s) :
    Overtaken id s' ↔ Overtakes id s op ∨ ¬ Settles id s op ∧ Overtaken id s := by
  rw [or_iff_right hnot, and_iff_right hnot', hsame]

/-- Attaching a message makes it overtaken or ends that it is so, and leaves the others as they were. -/
lemma overtaken_iff_of_attach (hopen : s.conversation = some conversation) (hlinked : Linked s.tree.messages)
    {parent : Option String} {tree : Tree} (hinsert : s.tree.insert parent m = .ok tree) :
    Overtaken id (s.attached tree m) ↔
      Overtakes id s (.attach parent m) ∨ ¬ Settles id s (.attach parent m) ∧ Overtaken id s := by
  have hsome : s.conversation ≠ none := hopen ▸ Option.some_ne_none conversation
  have hidle : ¬ Idle s (.attach parent m) := by
    rintro ⟨e, he⟩
    rw [hinsert] at he
    cases he
  have hattached := overtaken_attached_iff hlinked hinsert id
  by_cases hid : m.id = id
  · rw [if_pos hid] at hattached
    rw [hattached, Overtakes, Settles, and_iff_right hsome, and_iff_right hidle, and_iff_right hid,
      and_iff_right hsome, and_iff_right hidle, and_iff_right hid]
    cases hdone : m.done with
    | true => simp +contextual [Overtaken]
    | false => simp
  · rw [if_neg hid] at hattached
    exact overtaken_iff_of_neither (fun hop => hid hop.2.2.1) (fun hop => hid hop.2.2.1) hattached

/-- A reload makes overtaken what is in flight and comes complete, and ends it for what is then not there or not
complete. -/
lemma overtaken_iff_of_reload (hopen : s.conversation = some conversation) (hlinked : Linked s.tree.messages)
    {tree : Tree} {report : Report} {stores : Stores ρ κ}
    (hrefresh : s.stores.refresh conversation = (.ok (tree, report), stores))
    (hstreams : s'.streams = s.streams) (htree : s'.tree = carryInFlight s.tree s.streams tree) :
    Overtaken id s' ↔
      Overtakes id s (.load conversation) ∨ ¬ Settles id s (.load conversation) ∧ Overtaken id s := by
  have hhere : ¬ s.isElsewhere conversation := by simp [isElsewhere, hopen]
  have hblend := blend_carryInFlight hlinked (Stores.wellFormed_of_refresh hrefresh).toLinked s.streams
  have hok : ∀ P : Tree → Prop, (∃ tree report, (s.stores.refresh conversation).1 = .ok (tree, report) ∧
      P tree) ↔ P tree := by
    intro P
    rw [hrefresh]
    constructor
    · rintro ⟨tree', report', heq, htree⟩
      obtain ⟨rfl, -⟩ := Prod.mk.inj (Except.ok.inj heq)
      exact htree
    · exact fun htree => ⟨tree, report, rfl, htree⟩
  rw [Overtaken, hstreams, htree, Overtakes, Settles, hok, hok, and_iff_right hopen, or_iff_right hhere, not_not]
  constructor
  · rintro ⟨hactive, hdone⟩
    exact (hblend.hasDone_or hdone).imp (fun h => ⟨hactive, h⟩) fun h => ⟨hdone, hactive, h⟩
  · rintro (⟨hactive, hsynced⟩ | ⟨hdone, hactive, -⟩)
    · exact ⟨hactive, hblend.hasDone hsynced⟩
    · exact ⟨hactive, hdone⟩

/-- A step makes a message overtaken or ends that it is so as `Overtakes` and `Settles` have it, and otherwise
changes nothing about this. -/
lemma Step.overtaken_iff (h : Step conversation s op s') (hopen : s.conversation = some conversation)
    (hlinked : Linked s.tree.messages) :
    Overtaken id s' ↔ Overtakes id s op ∨ ¬ Settles id s op ∧ Overtaken id s := by
  have hhere : ¬ s.isElsewhere conversation := by simp [isElsewhere, hopen]
  cases h with
  | idle hidle => exact overtaken_iff_of_idle hlinked.keyed hidle
  | select x =>
    refine overtaken_iff_of_neither not_false not_false ?_
    exact overtaken_congr rfl (hasDone_congr (Tree.messages_select s.tree x))
  | noteRequest x sentAt =>
    by_cases hx : x = id
    · subst hx
      have hactive : (s.noteRequest x sentAt).streams.isActive x := Streams.isActive_start _ _ _
      refine ⟨fun h => Or.inl ⟨rfl, h.2⟩, fun h => ⟨hactive, ?_⟩⟩
      exact h.elim And.right fun h => h.2.2
    · refine overtaken_iff_of_neither (fun hop => hx hop.1) not_false ?_
      exact overtaken_congr (isActive_insert_of_ne hx _) Iff.rfl
  | recoverCache => exact overtaken_iff_of_neither not_false not_false (overtaken_congr rfl Iff.rfl)
  | attach hinsert => exact overtaken_iff_of_attach hopen hlinked hinsert
  | @increment x d m hm hdone hd =>
    obtain rfl : m.id = x := hlinked.keyed x m hm
    refine overtaken_iff_of_neither not_false not_false ?_
    have htree : (s.applied m d).notify.tree = s.tree.setBody (d.applyTo m) := rfl
    -- An increment that is applied is one of an incomplete response, so it leaves no complete one in flight.
    have hopen' : ¬ ((s.applied m d).notify.streams.isActive m.id ∧ (d.applyTo m).done = true) := by
      simp [Delta.applyTo, hdone]
    rw [overtaken_rewritten_iff hm htree rfl hopen' fun hne => isActive_insert_of_ne hne _]
    exact and_iff_right_of_imp (id_ne_of_overtaken hm hdone)
  | @last x d m hm hdone hd =>
    obtain rfl : m.id = x := hlinked.keyed x m hm
    refine overtaken_iff_of_neither not_false not_false ?_
    rw [overtaken_rewritten_iff hm (tree_last s m d) rfl (fun h => ?_) fun hne => ?_]
    · exact and_iff_right_of_imp (id_ne_of_overtaken hm hdone)
    · rw [streams_concluded] at h
      exact Bool.false_ne_true ((Streams.isActive_forget _ _).symm.trans h.1)
    · rw [streams_concluded]
      exact (isActive_erase_of_ne hne).trans (isActive_insert_of_ne hne _)
  | @conclude x op hop m hm hwhy =>
    obtain rfl : m.id = x := hlinked.keyed x m hm
    rw [overtaken_rewritten_iff hm (tree_concluded s conversation m) rfl (fun h => ?_) fun hne => ?_]
    · rcases hop with rfl | rfl
      · exact (or_iff_right not_false).symm
      · exact (or_iff_right not_false).symm
    · rw [streams_concluded] at h
      exact Bool.false_ne_true ((Streams.isActive_forget _ _).symm.trans h.1)
    · rw [streams_concluded]
      exact isActive_erase_of_ne hne
  | @delete x hx =>
    have hidle : ¬ Idle s (.delete x) := fun hidle => hidle hx
    have hsaved : Overtaken id ((s.cleared conversation x).notify.save conversation) ↔
        Overtaken id (s.cleared conversation x) := by
      refine overtaken_congr ?_ ?_
      · rw [streams_save, streams_notify]
      · rw [tree_save, tree_notify]
    rw [hsaved, overtaken_cleared_iff hlinked hx, Settles, and_iff_right hidle]
    exact (or_iff_right not_false).symm
  | reload hrefresh => exact overtaken_iff_of_reload hopen hlinked hrefresh rfl rfl
  | @fail e stores hrefresh =>
    have hnot : ∀ P : Tree → Prop, ¬ ∃ tree report, (s.stores.refresh conversation).1 = .ok (tree, report) ∧
        P tree := by
      rintro P ⟨tree, report, heq, -⟩
      rw [hrefresh] at heq
      cases heq
    refine overtaken_iff_of_neither (fun hop => hnot _ hop.2.2) ?_ (overtaken_congr rfl Iff.rfl)
    exact fun hop => hop.elim hhere (hnot _)

/-- Without messages nothing can be overtaken. -/
lemma not_overtakes_of_eq_empty (hnone : s.conversation = none) (hempty : s.tree.messages = ∅) :
    ¬ Overtakes id s op := by
  intro hop
  cases op with
  | load => exact Option.some_ne_none _ (hop.1.symm.trans hnone)
  | attach => exact hop.1 hnone
  | noteRequest => exact not_hasDone_of_eq_empty hempty hop.2
  | _ => exact hop

/-- The same of every operation on a sound session. -/
lemma Move.overtaken_iff (hmove : Move s op s') (h : Sound s) :
    Overtaken id s' ↔ Overtakes id s op ∨ ¬ Settles id s op ∧ Overtaken id s := by
  -- Without a conversation there is no message, neither before nor after.
  have hclosed : s.conversation = none → s'.tree.messages = s.tree.messages →
      (Overtaken id s' ↔ Overtakes id s op ∨ ¬ Settles id s op ∧ Overtaken id s) := by
    intro hnone htree
    have hempty := h.eq_empty hnone
    refine iff_of_false (fun hs => not_hasDone_of_eq_empty (htree.trans hempty) hs.2) ?_
    rintro (hop | hop)
    · exact not_overtakes_of_eq_empty hnone hempty hop
    · exact not_hasDone_of_eq_empty hempty hop.2.2
  -- A conversation that has just been opened has nothing in flight.
  have hopened : ∀ {conversation : String} {s' : Session ρ κ}, s.isElsewhere conversation →
      s'.streams = ∅ → (Overtaken id s' ↔ Overtakes id s (.load conversation) ∨
        ¬ Settles id s (.load conversation) ∧ Overtaken id s) := by
    intro conversation s' helsewhere hstreams
    refine iff_of_false (not_overtaken_of_streams hstreams) ?_
    rintro (hop | hop)
    · simp [isElsewhere, hop.1] at helsewhere
    · exact hop.1 (Or.inl helsewhere)
  cases hmove with
  | remain hopen _ hstep => exact hstep.overtaken_iff hopen h.linked
  | refuse hnone => exact hclosed hnone rfl
  | select hnone id => exact hclosed hnone (Tree.messages_select s.tree id)
  | noteRequest hnone => exact hclosed hnone rfl
  | recoverCache hnone => exact hclosed hnone rfl
  | startNew =>
    refine iff_of_false (not_overtaken_of_streams rfl) ?_
    exact fun hop => hop.elim not_false fun hop => hop.1 trivial
  | switch helsewhere => exact hopened helsewhere rfl
  | switchOffline helsewhere => exact hopened helsewhere rfl

/-! ### Runs -/

/-- Somewhere along the run the message becomes overtaken, and nothing ends this afterwards. -/
def StaysOvertaken (id : String) (start : Session ρ κ) (events : List Event) : Prop :=
  ∃ before e after, events = before ++ e :: after ∧
    Overtakes id ((start.runTimed before).atTime e.now) e.op ∧
    Along (fun s op => ¬ Settles id s op) (start.runTimed (before ++ [e])) after

/-- A message is overtaken after a run exactly if it has become so and stayed so. -/
lemma Sound.overtaken_runTimed_iff (h : Sound s) (hs : ¬ Overtaken id s) (events : List Event) :
    Overtaken id (s.runTimed events) ↔ StaysOvertaken id s events := by
  refine runTimed_iff_of_concat (Overtaken id) hs (fun events e => ?_) events
  rw [runTimed_concat]
  have hsound := (h.runTimed events).atTime e.now
  exact (hsound.move_after e.op).overtaken_iff hsound

/-- In every state that a session can reach, finishing or stopping a complete message has no effect exactly if
the message was not overtaken, or this has ended. While it is overtaken, either makes it complete, caches it
and saves it once more. -/
theorem finish_eq_self_iff (stores : Stores ρ κ) (settings : Settings) (events : List Event) {id : String}
    {m : Message} :
    let start : Session ρ κ := { stores := stores, settings := settings }
    let s := start.runTimed events
    s.tree.get? id = some m → m.done = true →
      (s.finish id = (.ok (), s) ∧ s.stop id = (.ok (), s) ↔ ¬ StaysOvertaken id start events) ∧
      (StaysOvertaken id start events → ∃ conversation, s.conversation = some conversation ∧
        s.finish id = (.ok (), s.concluded conversation m) ∧
        s.stop id = (.ok (), s.concluded conversation m)) := by
  intro start s hm hdone
  have hstart : Sound start := Sound.of_eq_empty rfl
  have hs : Sound s := hstart.runTimed events
  obtain rfl : m.id = id := hs.linked.keyed id m hm
  have hopen : ∃ conversation, s.conversation = some conversation := by
    refine Option.ne_none_iff_exists'.mp fun hnone => ?_
    rw [Tree.get?, hs.eq_empty hnone, Std.ExtTreeMap.getElem?_empty] at hm
    cases hm
  obtain ⟨conversation, hopen⟩ := hopen
  have hiff : StaysOvertaken m.id start events ↔ s.streams.isActive m.id = true := by
    rw [← hstart.overtaken_runTimed_iff (not_overtaken_of_streams rfl)]
    exact and_iff_left ⟨m, hm, hdone⟩
  rw [hiff]
  cases hactive : s.streams.isActive m.id with
  | false =>
    have hfinish : s.finish m.id = (.ok (), s) := finish_of_done hopen hm hdone hactive
    exact ⟨iff_of_true ⟨hfinish, hfinish⟩ Bool.false_ne_true, fun h => by cases h⟩
  | true =>
    have hfinish : s.finish m.id = (.ok (), s.concluded conversation m) :=
      finish_of_open hopen hm (Or.inr hactive)
    refine ⟨iff_of_false (fun h => ?_) fun h => h rfl, fun _ => ⟨conversation, hopen, hfinish, hfinish⟩⟩
    -- Afterwards the response is not in flight any more.
    have heq : s.concluded conversation m = s := congrArg Prod.snd (hfinish.symm.trans h.1)
    rw [← heq, streams_concluded] at hactive
    exact Bool.false_ne_true ((Streams.isActive_forget _ _).symm.trans hactive)

/-- A conversation in which an answer has been completed elsewhere. The first replies are from before that, when
there was only the question. -/
def overtakingStores : Stores (Remote.Scripted Remote.Archive) Memory :=
  let question : Message := { id := "a", role := .user, content := "Why?", createdAt := 1, done := true }
  let answer : Message :=
    { id := "b", parent := some "a", role := .assistant, content := "Because.", model := some "model",
      createdAt := 2, updatedAt := some 3, done := true }
  let seen := Tree.ofMessages [question] none
  { remote := {
      inner := (∅ : Remote.Archive).insert "c" (Tree.ofMessages [question, answer] none)
      outlines := [.ok seen.outline]
      bodies := [.ok [question]] }
    cache := {} }

/-- The conversation is loaded, an answer is awaited, and it ends with an increment. -/
def endingEvents : List Event :=
  [⟨1, .load "c"⟩, ⟨2, .attach (some "a") (Message.await "model" "b" 2)⟩,
    ⟨3, .receive "b" { content := some "Because.", done := true }⟩]

/-- The conversation is loaded, an answer is awaited, and the conversation is loaded again. -/
def overtakingEvents : List Event :=
  [⟨1, .load "c"⟩, ⟨2, .attach (some "a") (Message.await "model" "b" 2)⟩, ⟨4, .load "c"⟩]

/-- An answer that ended by itself is finished without any effect. -/
theorem finish_ended :
    let start : Session (Remote.Scripted Remote.Archive) Memory := { stores := overtakingStores }
    let s := start.runTimed endingEvents
    (s.tree.get? "b").any Message.done ∧ s.finish "b" = (.ok (), s) ∧
      ¬ StaysOvertaken "b" start endingEvents := by
  intro start s
  have hany : (s.tree.get? "b").any Message.done = true := by decide +kernel
  obtain ⟨m, hm, hdone⟩ := hasDone_iff_any.mpr hany
  obtain ⟨hiff, hagain⟩ := finish_eq_self_iff overtakingStores {} endingEvents hm hdone
  have hnot : ¬ StaysOvertaken "b" start endingEvents := by
    intro hstays
    obtain ⟨conversation, -, hfinish, -⟩ := hagain hstays
    have hrevision : (s.finish "b").2.revision = s.revision := by decide +kernel
    rw [hfinish, revision_concluded] at hrevision
    exact Nat.succ_ne_self _ hrevision
  exact ⟨hany, (hiff.mpr hnot).1, hnot⟩

/-- An answer that was completed elsewhere while it was awaited is complete, and yet finishing it caches it and
saves it. -/
theorem finish_overtaken :
    let start : Session (Remote.Scripted Remote.Archive) Memory := { stores := overtakingStores }
    let s := start.runTimed overtakingEvents
    (s.tree.get? "b").any Message.done ∧
      (s.finish "b").2.stores.calls.length = s.stores.calls.length + 2 ∧
      (s.finish "b").2.revision ≠ s.revision := by
  decide +kernel

end Session

end DialogueSync.Client
