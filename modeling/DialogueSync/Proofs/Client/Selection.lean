import DialogueSync.Cache.Memory
import DialogueSync.Proofs.Client.Soundness
import DialogueSync.Remote.Archive

/-!
# The selected message of a session

Whatever is done with a session, the selected message is one that is shown. Most operations also see to it
that something is selected if anything is shown, and the others leave the selection and the emptiness of the
tree as they are (`Move.selection`). There is one exception: a reload that finds no message of the open
conversation in the stores, while a response in flight is shown. The response is then carried over into the
empty tree, in which nothing is selected.

So nothing is selected in a tree with messages exactly if the selection was last looked after by such a reload
(`deselected_iff`).
-/

namespace DialogueSync.Client

open Cache (Memory)
open DialogueSync.Tree (Linked WellFormed)

variable {opened synced t : Tree} {id x : String} {m : Message}

/-! ### Carrying over -/

/-- To place a message selects nothing else. -/
lemma current_carryMessage (id : String) (t : Tree) (m : Message) :
    (carryMessage id t m).current = t.current := by
  rcases carryMessage_cases id t m with heq | ⟨t', hplace, heq, -⟩
  · rw [heq]
  · rw [heq]
    exact Tree.current_insert hplace

lemma current_carryOver (t : Tree) (id : String) (way : List Message) :
    (carryOver t id way).current = t.current := by
  rw [carryOver_eq_foldl]
  induction way generalizing t with
  | nil => rfl
  | cons m rest ih => exact (ih (carryMessage id t m)).trans (current_carryMessage id t m)

lemma current_carryResponse (opened t : Tree) (id : String) :
    (carryResponse opened t id).current = t.current := by
  unfold carryResponse
  split
  · rfl
  · exact current_carryOver t id _

/-- Carrying over leaves the selection of the synchronised tree as it is. -/
lemma current_carryInFlight (opened : Tree) (streams : Streams) (synced : Tree) :
    (carryInFlight opened streams synced).current = synced.current := by
  rw [carryInFlight_eq_foldl]
  generalize streams.active = ids
  induction ids generalizing synced with
  | nil => rfl
  | cons id rest ih =>
    exact (ih (carryResponse opened synced id)).trans (current_carryResponse opened synced id)

/-- A message of a linked tree is still there when another one has been carried over, and so on. -/
lemma mem_carryMessage (h : Linked t.messages) (hx : x ∈ t.messages) (id : String) (m : Message) :
    Linked (carryMessage id t m).messages ∧ x ∈ (carryMessage id t m).messages := by
  rcases carryMessage_cases id t m with heq | ⟨t', hplace, heq, -⟩
  · rw [heq]
    exact ⟨h, hx⟩
  · rw [heq]
    exact ⟨Tree.linked_insert h hplace, (Tree.mem_insert_iff h hplace).mpr (Or.inr hx)⟩

/-- What is shown already stays while a response is carried over. -/
lemma mem_carryOver (h : Linked t.messages) (hx : x ∈ t.messages) (id : String) (way : List Message) :
    Linked (carryOver t id way).messages ∧ x ∈ (carryOver t id way).messages := by
  rw [carryOver_eq_foldl]
  induction way generalizing t with
  | nil => exact ⟨h, hx⟩
  | cons m rest ih =>
    obtain ⟨hlinked, hmem⟩ := mem_carryMessage h hx id m
    exact ih hlinked hmem

lemma mem_carryResponses (opened : Tree) (h : Linked t.messages) (hx : x ∈ t.messages)
    (ids : List String) : x ∈ (ids.foldl (carryResponse opened) t).messages := by
  induction ids generalizing t with
  | nil => exact hx
  | cons id rest ih =>
    rw [List.foldl_cons, carryResponse]
    split
    · exact ih h hx
    · obtain ⟨hlinked, hmem⟩ := mem_carryOver h hx id (opened.path id)
      exact ih hlinked hmem

/-- Into a tree without messages at least the first message on the way to a response is carried over. -/
lemma exists_mem_carryResponse (hid : id ∈ opened.messages) (ht : t.messages = ∅) :
    ∃ x, x ∈ (carryResponse opened t id).messages := by
  have hnot : ∀ x, x ∉ t.messages := Std.ExtTreeMap.eq_empty_iff_forall_not_mem.mp ht
  have hgrounded : Tree.Grounded t.messages := ht.symm ▸ Tree.grounded_empty
  obtain ⟨first, rest, hway⟩ := List.exists_cons_of_ne_nil fun hnil => Tree.path_eq_nil_iff.mp hnil hid
  obtain ⟨t', hplace⟩ : ∃ t', t.place first = .ok t' :=
    Tree.exists_insert_of_not_mem hgrounded (hnot first.id) first.parent
  have hfirst : carryMessage id t first = t' := by
    have hcontains : t.contains first.id = false := by
      rw [← Bool.not_eq_true]
      exact hnot first.id
    rw [carryMessage, hcontains, Bool.not_false, Bool.or_true, if_pos rfl, hplace]
    rfl
  have hnone : t.get? id = none := Std.ExtTreeMap.getElem?_eq_none (hnot id)
  rw [carryResponse, hnone, Option.any_none, if_neg Bool.false_ne_true, hway, carryOver_eq_foldl,
    List.foldl_cons, hfirst]
  refine ⟨first.id, (mem_carryOver (Tree.linked_insert hgrounded.toLinked hplace) ?_ id rest).2⟩
  exact (Tree.mem_insert_iff hgrounded.toLinked hplace).mpr (Or.inl rfl)

/-- Nothing is carried over for responses that the opened tree does not have. -/
lemma foldl_carryResponse_eq_self {ids : List String} (h : ∀ id ∈ ids, id ∉ opened.messages) :
    ids.foldl (carryResponse opened) t = t := by
  induction ids with
  | nil => rfl
  | cons id rest ih =>
    rw [List.forall_mem_cons] at h
    have hfirst : carryResponse opened t id = t := by
      rw [carryResponse, Tree.path_eq_nil_iff.mpr h.1]
      exact ite_self t
    rw [List.foldl_cons, hfirst, ih h.2]

/-- Where a response in flight is shown, there are messages after carrying over. -/
lemma exists_mem_carryInFlight (hopened : Linked opened.messages) (hsynced : Linked synced.messages)
    {streams : Streams} (hactive : streams.isActive id) (hid : id ∈ opened.messages) :
    ∃ x, x ∈ (carryInFlight opened streams synced).messages := by
  have hmem : id ∈ streams.active :=
    Std.ExtTreeMap.mem_keys.mpr (Std.ExtTreeMap.contains_iff_mem.mp hactive)
  obtain ⟨before, after, hsplit⟩ := List.append_of_mem hmem
  rw [carryInFlight_eq_foldl, hsplit, List.foldl_append, List.foldl_cons]
  -- Whether something was there before or not, after this response there is.
  have hblend := (Blend.refl hsynced).responses hopened before
  have hlinked := (hblend.response hopened id).linked
  generalize before.foldl (carryResponse opened) synced = t at hblend hlinked ⊢
  by_cases ht : t.messages = ∅
  · obtain ⟨x, hx⟩ := exists_mem_carryResponse hid ht
    exact ⟨x, mem_carryResponses opened hlinked hx after⟩
  · obtain ⟨x, hx⟩ : ∃ x, x ∈ t.messages := by
      by_contra hnone
      exact ht (Std.ExtTreeMap.eq_empty_iff_forall_not_mem.mpr fun x hx => hnone ⟨x, hx⟩)
    exact ⟨x, mem_carryResponses opened hblend.linked hx (id :: after)⟩

/-- After carrying over the tree is empty exactly if the synchronised one was and no response in flight is
shown. -/
lemma carryInFlight_eq_empty_iff (hopened : Linked opened.messages) (hsynced : Linked synced.messages)
    (streams : Streams) : (carryInFlight opened streams synced).messages = ∅ ↔
      synced.messages = ∅ ∧ ∀ id, streams.isActive id → id ∉ opened.messages := by
  constructor
  · intro hempty
    have hnot := Std.ExtTreeMap.eq_empty_iff_forall_not_mem.mp hempty
    refine ⟨Std.ExtTreeMap.eq_empty_iff_forall_not_mem.mpr fun x hx => hnot x ?_, ?_⟩
    · exact (blend_carryInFlight hopened hsynced streams).mem_of_synced x hx
    · intro id hactive hid
      obtain ⟨x, hx⟩ := exists_mem_carryInFlight hopened hsynced hactive hid
      exact hnot x hx
  · rintro ⟨hempty, hnone⟩
    rw [carryInFlight_eq_foldl, foldl_carryResponse_eq_self fun id hid => hnone id ?_]
    · exact hempty
    · exact Std.ExtTreeMap.contains_iff_mem.mpr (Std.ExtTreeMap.mem_keys.mp hid)

namespace Session

variable {ρ κ : Type} [Remote ρ] [Cache κ] {s s' : Session ρ κ} {conversation : String} {op : Operation}

/-! ### Looking after the selection -/

/-- The operation looks after the selection. -/
def Reselects (s : Session ρ κ) : Operation → Prop
  | .startNew _ | .select _ => True
  | .load conversation =>
    s.isElsewhere conversation ∨ ∃ outcome, (s.stores.refresh conversation).1 = .ok outcome
  | .attach parent m => s.conversation ≠ none ∧ ¬ Idle s (.attach parent m)
  | .delete id => s.conversation ≠ none ∧ ¬ Idle s (.delete id)
  | .noteRequest .. | .receive .. | .finish _ | .stop _ | .recoverCache => False

/-- The operation reloads the open conversation, of which the stores have no message, while a response in
flight is shown. -/
def Deselects (s : Session ρ κ) : Operation → Prop
  | .load conversation => s.conversation = some conversation ∧
    (∃ tree report, (s.stores.refresh conversation).1 = .ok (tree, report) ∧ tree.messages = ∅) ∧
    ∃ id, s.streams.isActive id ∧ id ∈ s.tree.messages
  | .startNew _ | .attach .. | .select _ | .noteRequest .. | .receive .. | .finish _ | .stop _ | .delete _
  | .recoverCache => False

/-- Nothing is selected, although something is shown. -/
def Deselected (t : Tree) : Prop :=
  t.current = none ∧ t.messages ≠ ∅

/-- The selected message is shown. -/
def ShowsSelected (t : Tree) : Prop :=
  ∀ id, t.current = some id → id ∈ t.messages

section Trees

omit [Remote ρ] [Cache κ]

/-- In a well-formed tree something is selected as soon as something is shown. -/
lemma not_deselected_of_wellFormed (h : t.WellFormed) : ¬ Deselected t :=
  fun hnone => hnone.2 (h.eq_empty_of_current hnone.1)

lemma ShowsSelected.current_eq_none (h : ShowsSelected t) (hempty : t.messages = ∅) : t.current = none := by
  refine Option.eq_none_iff_forall_ne_some.mpr fun id hid => ?_
  exact absurd (h id hid) (hempty ▸ Std.ExtTreeMap.not_mem_empty)

end Trees

/-- A reload that loses the selection would have looked after it. -/
lemma Deselects.reselects (h : Deselects s op) : Reselects s op := by
  cases op with
  | load conversation =>
    obtain ⟨-, ⟨tree, report, hok, -⟩, -⟩ := h
    exact Or.inr ⟨(tree, report), hok⟩
  | _ => exact h.elim

/-- An operation that does nothing does not look after the selection. -/
lemma not_reselects_of_idle (h : Idle s op) : ¬ Reselects s op := by
  intro hop
  cases op with
  | attach => exact hop.2 h
  | delete => exact hop.2 h
  | startNew => exact h
  | load => exact h
  | select => exact h
  | _ => exact hop

/-! ### Steps -/

/-- What comes of a reload is linked, and the selected message is shown. -/
lemma linked_and_showsSelected {tree : Tree} {report : Report} {stores : Stores ρ κ}
    (hlinked : Linked s.tree.messages)
    (hrefresh : s.stores.refresh conversation = (.ok (tree, report), stores)) :
    Linked (carryInFlight s.tree s.streams tree).messages ∧
      ShowsSelected (carryInFlight s.tree s.streams tree) := by
  have hsynced := Stores.wellFormed_of_refresh hrefresh
  have hblend := blend_carryInFlight hlinked hsynced.toLinked s.streams
  refine ⟨hblend.linked, fun id hid => ?_⟩
  rw [current_carryInFlight] at hid
  exact hblend.mem_of_synced id (hsynced.mem_of_current id hid)

/-- A step that looks after the selection leaves a well-formed tree, but for the one exception. -/
lemma Step.wellFormed (h : Step conversation s op s') (hopen : s.conversation = some conversation)
    (hlinked : Linked s.tree.messages) (hop : Reselects s op) (hnot : ¬ Deselects s op) :
    s'.tree.WellFormed := by
  cases h with
  | idle h => exact absurd hop (not_reselects_of_idle h)
  | select id => exact Tree.wellFormed_select hlinked id
  | @attach parent m tree hinsert =>
    exact Tree.wellFormed_select (Tree.linked_insert hlinked hinsert) m.id
  | @delete id hid =>
    rw [tree_save]
    change (s.tree.remove id).WellFormed
    rw [Tree.remove_of_mem hlinked hid]
    exact Tree.wellFormed_repair (Tree.linked_without hlinked id)
  | @reload tree report stores hrefresh =>
    have hsynced := Stores.wellFormed_of_refresh hrefresh
    obtain ⟨hcarried, hshows⟩ := linked_and_showsSelected hlinked hrefresh
    refine ⟨hcarried, hshows, fun hnone => ?_⟩
    change (carryInFlight s.tree s.streams tree).current = none at hnone
    rw [current_carryInFlight] at hnone
    have hempty := hsynced.eq_empty_of_current hnone
    refine (carryInFlight_eq_empty_iff hlinked hsynced.toLinked s.streams).mpr
      ⟨hempty, fun id hactive hid => hnot ⟨hopen, ⟨tree, report, ?_, hempty⟩, id, hactive, hid⟩⟩
    rw [hrefresh]
  | @fail e stores hrefresh =>
    rcases hop with helsewhere | ⟨outcome, hok⟩
    · simp [isElsewhere, hopen] at helsewhere
    · rw [hrefresh] at hok
      cases hok
  | conclude hwhich =>
    rcases hwhich with rfl | rfl
    · exact hop.elim
    · exact hop.elim
  | _ => exact hop.elim

/-- A step that does not look after the selection keeps it, and all that is shown. -/
lemma Step.selection_eq (h : Step conversation s op s') (hopen : s.conversation = some conversation)
    (hop : ¬ Reselects s op) :
    s'.tree.current = s.tree.current ∧ ∀ x, x ∈ s'.tree.messages ↔ x ∈ s.tree.messages := by
  have hset : ∀ m : Message, (s.tree.setBody m).current = s.tree.current ∧
      ∀ x, x ∈ (s.tree.setBody m).messages ↔ x ∈ s.tree.messages :=
    fun m => ⟨rfl, fun x => Tree.mem_setBody_iff⟩
  have hsome : s.conversation ≠ none := by
    rw [hopen]
    exact Option.some_ne_none conversation
  cases h with
  | select => exact absurd trivial hop
  | @attach parent m tree hinsert =>
    refine absurd ⟨hsome, fun hidle => ?_⟩ hop
    obtain ⟨e, herror⟩ := hidle
    rw [hinsert] at herror
    cases herror
  | increment => exact hset _
  | last =>
    rw [tree_last]
    exact hset _
  | conclude =>
    rw [tree_concluded]
    exact hset _
  | delete hid => exact absurd ⟨hsome, fun hidle => hidle hid⟩ hop
  | reload hrefresh => exact absurd (Or.inr ⟨_, by rw [hrefresh]⟩) hop
  | _ => exact ⟨rfl, fun x => Iff.rfl⟩

namespace Move

/-- A move that looks after the selection leaves a well-formed tree, but for the one exception. -/
lemma wellFormed (hmove : Move s op s') (h : Sound s) (hop : Reselects s op) (hnot : ¬ Deselects s op) :
    s'.tree.WellFormed := by
  cases hmove with
  | remain hopen _ hstep => exact hstep.wellFormed hopen h.linked hop hnot
  | refuse hnone hneeds =>
    cases op with
    | attach => exact absurd hnone hop.1
    | delete => exact absurd hnone hop.1
    | startNew => exact hneeds.elim
    | load => exact hneeds.elim
    | select => exact hneeds.elim
    | _ => exact hop.elim
  | select _ id => exact Tree.wellFormed_select h.linked id
  | noteRequest => exact hop.elim
  | recoverCache => exact hop.elim
  | startNew => exact ⟨Tree.grounded_empty.toLinked, fun _ hid => (by cases hid), fun _ => rfl⟩
  | switch _ hrefresh => exact Stores.wellFormed_of_refresh hrefresh
  | switchOffline => exact Tree.wellFormed_ofMessages _ _

/-- In the one exception nothing is selected, although something is shown. -/
lemma deselected (hmove : Move s op s') (h : Sound s) (hop : Deselects s op) : Deselected s'.tree := by
  cases op with
  | load conversation =>
    obtain ⟨hopen, ⟨tree, report, hok, hempty⟩, id, hactive, hid⟩ := hop
    cases hmove with
    | remain hopen' hremains hstep =>
      cases hstep with
      | idle hidle => exact hidle.elim
      | conclude hwhich => rcases hwhich with hop | hop <;> cases hop
      | @reload synced _ _ hrefresh =>
        rw [hrefresh] at hok
        obtain ⟨rfl, -⟩ := Prod.mk.inj (Except.ok.inj hok)
        have hsynced := Stores.wellFormed_of_refresh hrefresh
        refine ⟨?_, fun hnone => ?_⟩
        · refine (current_carryInFlight s.tree s.streams synced).trans ?_
          exact ShowsSelected.current_eq_none hsynced.mem_of_current hempty
        · have hall := (carryInFlight_eq_empty_iff h.linked hsynced.toLinked s.streams).mp hnone
          exact hall.2 id hactive hid
      | fail hrefresh =>
        rw [hrefresh] at hok
        cases hok
    | refuse _ hneeds => exact hneeds.elim
    | switch helsewhere => simp [isElsewhere, hopen] at helsewhere
    | switchOffline helsewhere => simp [isElsewhere, hopen] at helsewhere
  | _ => exact hop.elim

/-- A move that does not look after the selection keeps it, and all that is shown. -/
lemma selection_eq (hmove : Move s op s') (hop : ¬ Reselects s op) :
    s'.tree.current = s.tree.current ∧ ∀ x, x ∈ s'.tree.messages ↔ x ∈ s.tree.messages := by
  cases hmove with
  | remain hopen _ hstep => exact hstep.selection_eq hopen hop
  | select => exact absurd trivial hop
  | startNew => exact absurd trivial hop
  | switch helsewhere => exact absurd (Or.inl helsewhere) hop
  | switchOffline helsewhere => exact absurd (Or.inl helsewhere) hop
  | _ => exact ⟨rfl, fun x => Iff.rfl⟩

end Move

/-! ### Runs -/

namespace Sound

/-- Whatever is done, the selected message is shown. -/
lemma showsSelected_after (h : Sound s) (hs : ShowsSelected s.tree) (op : Operation) :
    ShowsSelected (s.after op).tree := by
  have hmove := h.move_after op
  by_cases hop : Reselects s op
  · by_cases hdeselects : Deselects s op
    · intro id hid
      rw [(hmove.deselected h hdeselects).1] at hid
      cases hid
    · exact (hmove.wellFormed h hop hdeselects).mem_of_current
  · obtain ⟨hcurrent, hmem⟩ := hmove.selection_eq hop
    intro id hid
    exact (hmem id).mpr (hs id (hcurrent ▸ hid))

/-- Whether something is selected is decided when the selection is looked after. -/
lemma deselected_after_iff (h : Sound s) (op : Operation) :
    Deselected (s.after op).tree ↔ Deselects s op ∨ ¬ Reselects s op ∧ Deselected s.tree := by
  have hmove := h.move_after op
  by_cases hop : Reselects s op
  · rw [or_iff_left fun hnot => hnot.1 hop]
    refine ⟨fun hnone => ?_, hmove.deselected h⟩
    by_contra hdeselects
    exact not_deselected_of_wellFormed (hmove.wellFormed h hop hdeselects) hnone
  · obtain ⟨hcurrent, hmem⟩ := hmove.selection_eq hop
    have hempty : (s.after op).tree.messages = ∅ ↔ s.tree.messages = ∅ := by
      simp only [Std.ExtTreeMap.eq_empty_iff_forall_not_mem, hmem]
    rw [or_iff_right fun hdeselects => hop hdeselects.reselects, and_iff_right hop, Deselected, Deselected,
      hcurrent, ne_eq, ne_eq, hempty]

/-- The selected message is shown after every run. -/
lemma showsSelected_runTimed (h : Sound s) (hs : ShowsSelected s.tree) (events : List Event) :
    ShowsSelected (s.runTimed events).tree := by
  induction events generalizing s with
  | nil => exact hs
  | cons e events ih =>
    have hsound := h.atTime e.now
    exact ih (hsound.after e.op) (hsound.showsSelected_after hs e.op)

/-- Nothing is selected in a tree with messages exactly if the run comes by the one exception, after which
nothing looks after the selection. -/
lemma deselected_runTimed_iff (h : Sound s) (hs : ¬ Deselected s.tree) (events : List Event) :
    Deselected (s.runTimed events).tree ↔ ∃ before e after, events = before ++ e :: after ∧
      Deselects ((s.runTimed before).atTime e.now) e.op ∧
      Along (fun s op => ¬ Reselects s op) (s.runTimed (before ++ [e])) after := by
  refine runTimed_iff_of_concat (fun s => Deselected s.tree) hs (fun events e => ?_) events
  rw [runTimed_concat]
  exact ((h.runTimed events).atTime e.now).deselected_after_iff e.op

end Sound

/-- In every state that a session can reach, the selected message is shown. Nothing is selected if nothing is
shown, and otherwise exactly if the selection was last looked after when the open conversation was reloaded, no
message of it being in the stores, while a response in flight was shown. -/
theorem deselected_iff (stores : Stores ρ κ) (settings : Settings) (events : List Event) :
    let start : Session ρ κ := { stores := stores, settings := settings }
    let t := (start.runTimed events).tree
    (∀ id, t.current = some id → t.contains id) ∧ (t.messages = ∅ → t.current = none) ∧
      (t.current = none ∧ t.messages ≠ ∅ ↔ ∃ before e after, events = before ++ e :: after ∧
        Deselects ((start.runTimed before).atTime e.now) e.op ∧
        Along (fun s op => ¬ Reselects s op) (start.runTimed (before ++ [e])) after) := by
  intro start t
  have hsound : Sound start := Sound.of_eq_empty rfl
  have hshows : ShowsSelected t :=
    hsound.showsSelected_runTimed (fun id hid => by cases hid) events
  refine ⟨hshows, hshows.current_eq_none, ?_⟩
  exact hsound.deselected_runTimed_iff (fun hnot => hnot.2 rfl) events

/-- A response is awaited in a new conversation, of which the remote store has no message yet, and the
conversation is loaded again: then the response is shown, and nothing selected. -/
theorem deselected_awaiting :
    let start : Session Remote.Archive Memory :=
      { stores := { remote := (∅ : Remote.Archive).insert "c" {}, cache := {} } }
    let t := (start.runTimed [⟨1, .startNew "c"⟩, ⟨2, .attach none (Message.await "model" "b" 2)⟩,
      ⟨3, .load "c"⟩]).tree
    ¬ (t.current = none ↔ t.messages = ∅) ∧ t.current = none ∧ t.contains "b" := by
  decide +kernel

end Session

end DialogueSync.Client
