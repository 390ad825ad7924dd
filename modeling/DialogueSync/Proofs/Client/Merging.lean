import DialogueSync.Proofs.Client.CarryOver
import DialogueSync.Proofs.Tree.Reachable

/-!
# What merging leaves alone

Responses in flight are merged into a tree that was just synchronised, one message after the other, and the
two trees may contradict each other: a message may be moved, one that waits for its parent may find it, and
one whose place would close a circle is refused. What was synchronised holds throughout. A step either changes
nothing or attaches one message, and it attaches no message that was synchronised, unless a response to that
id is in flight and was not synchronised complete (`Merged.carryMessage`).

So the outcome is consistent, it has all messages that were synchronised and leaves them as they are but for
their children, and whatever it has besides stands on the way down to a response in flight
(`consistent_carryInFlight`). Nothing is asked of the tree that was open.
-/

namespace DialogueSync

open DialogueSync.Tree (Linked Reachable)

/-- A tree that comes about is consistent. -/
lemma Tree.Reachable.consistent {t : Tree} (h : Reachable t) : t.Consistent where
  keyed := h.linked.keyed
  acyclic := h.linked.acyclic
  mem_children_iff _ _ hm _ := h.linked.mem_children_iff hm
  nodup_children _ m hm := by
    refine (h.linked.pairwise_children hm).imp fun {a b} hab heq => ?_
    subst heq
    exact not_before_self t a hab
  pairwise_children _ _ hm := h.linked.pairwise_children hm
  contains_of_current := h.mem_of_current

namespace Client

variable {opened synced t t' : Tree} {streams : Streams} {id x : String} {m : Message}

/-- A response to the id is in flight, and was not synchronised complete. -/
def Awaited (streams : Streams) (synced : Tree) (id : String) : Prop :=
  streams.isActive id ∧ ¬ HasDone synced id

/-- The message stands on the way down to a response in flight. -/
def OnTheWay (opened : Tree) (streams : Streams) (id : String) : Prop :=
  ∃ response, streams.isActive response ∧ ∃ m ∈ opened.path response, m.id = id

/-- What holds of a tree into which some messages on the way to responses in flight have been merged. -/
structure Merged (opened : Tree) (streams : Streams) (synced t : Tree) : Prop where
  /-- The tree comes about by edits. -/
  reachable : Reachable t
  /-- What was synchronised is there. -/
  mem_of_synced : ∀ id, id ∈ synced.messages → id ∈ t.messages
  /-- A message that was synchronised is left alone but for its children, unless it is awaited. -/
  get?_of_synced : ∀ id m, synced.get? id = some m → ¬ Awaited streams synced id →
    ∃ children, t.get? id = some { m with children := children }
  /-- Everything else stands on the way to a response in flight. -/
  onTheWay_of_mem : ∀ id, id ∈ t.messages → id ∉ synced.messages → OnTheWay opened streams id

namespace Merged

lemma refl (h : Reachable synced) : Merged opened streams synced synced where
  reachable := h
  mem_of_synced _ hid := hid
  get?_of_synced _ m hm _ := ⟨m.children, hm⟩
  onTheWay_of_mem _ hid hnot := absurd hid hnot

/-- What was synchronised complete is complete. -/
lemma hasDone (h : Merged opened streams synced t) (hdone : HasDone synced id) : HasDone t id := by
  obtain ⟨m, hm, hmdone⟩ := hdone
  obtain ⟨children, hkept⟩ := h.get?_of_synced id m hm fun hawaited => hawaited.2 ⟨m, hm, hmdone⟩
  exact ⟨_, hkept, hmdone⟩

/-- Attaching a message leaves every other one as it is but for its children. -/
lemma exists_children_of_insert (h : Linked t.messages) {parent : Option String}
    (hinsert : t.insert parent m = .ok t') (hx : x ≠ m.id) {m' : Message} (hm' : t.get? x = some m') :
    ∃ children, t'.get? x = some { m' with children := children } := by
  refine ⟨Tree.childrenIn (t.messages.insert m.id (t.hung parent m)) x, ?_⟩
  rw [Tree.get?_insert h hinsert, if_neg hx, hm', Option.map_some]

/-- A message on the way to a response in flight may be placed if it is awaited or it was not
synchronised. -/
lemma place (h : Merged opened streams synced t) (hway : OnTheWay opened streams m.id)
    (hwhy : Awaited streams synced m.id ∨ m.id ∉ synced.messages) (hplace : t.place m = .ok t') :
    Merged opened streams synced t' := by
  have hlinked := h.reachable.linked
  have hinsert : t.insert m.parent m = .ok t' := hplace
  have hedit : t.edit (.place m) = t' := by rw [Tree.edit, hplace]; rfl
  refine ⟨hedit ▸ h.reachable.edit (.place m), fun x hx => ?_, fun x mx hmx hnot => ?_,
    fun x hx hnot => ?_⟩
  · exact Tree.mem_of_insert hlinked hinsert (h.mem_of_synced x hx)
  · have hne : x ≠ m.id := by
      rintro rfl
      rcases hwhy with hawaited | hmissing
      · exact hnot hawaited
      · exact hmissing (Tree.mem_iff_exists_get?.mpr ⟨mx, hmx⟩)
    obtain ⟨children, hkept⟩ := h.get?_of_synced x mx hmx hnot
    obtain ⟨children', hkept'⟩ := exists_children_of_insert hlinked hinsert hne hkept
    exact ⟨children', hkept'⟩
  · rcases (Tree.mem_insert_iff hlinked hinsert).mp hx with rfl | hold
    · exact hway
    · exact h.onTheWay_of_mem x hold hnot

/-- One message on the way to an awaited response. -/
lemma carryMessage (h : Merged opened streams synced t) (hawaited : Awaited streams synced id)
    (hm : m ∈ opened.path id) : Merged opened streams synced (carryMessage id t m) := by
  rcases carryMessage_cases id t m with heq | ⟨t', hplace, heq, hwhy⟩
  · rwa [heq]
  · rw [heq]
    refine h.place ⟨id, hawaited.1, m, hm, rfl⟩ ?_ hplace
    rcases hwhy with rfl | hmissing
    · exact Or.inl hawaited
    · exact Or.inr fun hmem => hmissing (h.mem_of_synced m.id hmem)

/-- Any messages on the way to an awaited response. -/
lemma carryOver (h : Merged opened streams synced t) (hawaited : Awaited streams synced id)
    {way : List Message} (hway : ∀ m ∈ way, m ∈ opened.path id) :
    Merged opened streams synced (carryOver t id way) := by
  rw [carryOver_eq_foldl]
  induction way generalizing t with
  | nil => exact h
  | cons m rest ih =>
    refine ih (h.carryMessage hawaited (hway m List.mem_cons_self)) fun m' hm' => ?_
    exact hway m' (List.mem_cons_of_mem m hm')

/-- One response in flight. -/
lemma carryResponse (h : Merged opened streams synced t) (hactive : streams.isActive id) :
    Merged opened streams synced (carryResponse opened t id) := by
  rcases carryResponse_cases opened t id with ⟨-, heq⟩ | ⟨hnot, heq⟩
  · rwa [heq]
  · rw [heq]
    exact h.carryOver ⟨hactive, fun hdone => hnot (h.hasDone hdone)⟩ fun m hm => hm

/-- Any responses in flight. -/
lemma carryResponses (h : Merged opened streams synced t) {ids : List String}
    (hactive : ∀ id ∈ ids, streams.isActive id) :
    Merged opened streams synced (ids.foldl (Client.carryResponse opened) t) := by
  induction ids generalizing t with
  | nil => exact h
  | cons id rest ih =>
    refine ih (h.carryResponse (hactive id List.mem_cons_self)) fun other hother => ?_
    exact hactive other (List.mem_cons_of_mem id hother)

/-- Carrying over what still streams merges the tree with it. -/
lemma carryInFlight (h : Reachable synced) (opened : Tree) (streams : Streams) :
    Merged opened streams synced (carryInFlight opened streams synced) := by
  rw [carryInFlight_eq_foldl]
  refine (refl h).carryResponses fun id hid => ?_
  exact Std.ExtTreeMap.contains_iff_mem.mpr (Std.ExtTreeMap.mem_keys.mp hid)

end Merged

/-- Whatever tree was open and whatever is in flight, after the merge the tree is consistent and has every
message that was synchronised. Such a message is unchanged but for its children, unless its response is in
flight and was not synchronised complete; and every other message stands on the way from a root of the open
tree down to a response in flight. -/
theorem consistent_carryInFlight (h : Reachable synced) (opened : Tree) (streams : Streams) :
    (carryInFlight opened streams synced).Consistent ∧
      (∀ id, synced.contains id → (carryInFlight opened streams synced).contains id) ∧
      (∀ id m, synced.get? id = some m → ¬ (streams.isActive id ∧ m.done = false) →
        ∃ children, (carryInFlight opened streams synced).get? id =
          some { m with children := children }) ∧
      ∀ id, (carryInFlight opened streams synced).contains id → ¬ synced.contains id →
        ∃ response, streams.isActive response ∧ ∃ m ∈ opened.path response, m.id = id := by
  have hmerged := Merged.carryInFlight h opened streams
  refine ⟨hmerged.reachable.consistent, hmerged.mem_of_synced, fun id m hm hnot => ?_,
    hmerged.onTheWay_of_mem⟩
  refine hmerged.get?_of_synced id m hm fun hawaited => hnot ⟨hawaited.1, ?_⟩
  cases hdone : m.done with
  | false => rfl
  | true => exact absurd ⟨m, hm, hdone⟩ hawaited.2

/-- An open conversation: a question, a further one below it that only this tree has, and the response to
that. -/
def openedBranch : Tree :=
  Tree.ofMessages
    [Message.ask "first" "q" 1, { Message.ask "further" "f" 2 with parent := some "q" },
      { Message.await "m" "r" 3 with parent := some "f" }] (some "r")

/-- The same conversation as it was synchronised: the first question stands below the response, and another
message waits for the further question. -/
def syncedBranch : Tree :=
  Tree.ofMessages
    [{ Message.ask "edited" "q" 1 with parent := some "r" }, Message.await "m" "r" 3,
      { Message.ask "waiting" "w" 4 with parent := some "f" }] (some "w")

/-- One response in flight. -/
def responseInFlight : Streams :=
  Streams.start {} "r" 3

/-- Merging the two branches, which contradict each other, leaves what was synchronised consistent and its
questions as they were. -/
theorem consistent_carryInFlight_contradicting :
    let t := carryInFlight openedBranch responseInFlight syncedBranch
    t.Consistent ∧ (∃ children, t.get? "q" =
      some { Message.ask "edited" "q" 1 with parent := some "r", children := children }) ∧
      ∃ response, responseInFlight.isActive response ∧ ∃ m ∈ openedBranch.path response, m.id = "f" := by
  intro t
  have hreach : Reachable syncedBranch := Reachable.ofMessages _ _
  have hquestion : syncedBranch.get? "q" =
      some { Message.ask "edited" "q" 1 with parent := some "r" } := by decide +kernel
  obtain ⟨hconsistent, -, hkept, hadded⟩ :=
    consistent_carryInFlight hreach openedBranch responseInFlight
  exact ⟨hconsistent, hkept "q" _ hquestion (by decide +kernel),
    hadded "f" (by decide +kernel) (by decide +kernel)⟩

/-- The further question came below the first one and took the message that waited for it, and the response
could not be moved below it. -/
example : (carryInFlight openedBranch responseInFlight syncedBranch).messages.toList.map
      (fun e => (e.1, e.2.parent, e.2.children)) =
    [("f", some "q", ["w"]), ("q", some "r", ["f"]), ("r", none, ["q"]), ("w", some "f", [])] := by
  decide +kernel

end Client

end DialogueSync
