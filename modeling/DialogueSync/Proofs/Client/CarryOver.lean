import DialogueSync.Client.Session
import DialogueSync.Proofs.Tree.Grounded
import DialogueSync.Proofs.Tree.Navigation

/-!
# Carrying responses in flight over

When the open conversation is synchronised, the responses in flight are carried over from the tree that was
open into the one that comes from the stores. The outcome is a `Blend` of the two: every message has its body
from one of them, and from the open one only if the other does not have it complete (`blend_carryInFlight`).

A message that cannot be placed is left out. This does not happen if both trees are grounded and agree on the
parents of the messages that they share: then the whole way down to a response is there before the response
itself is placed, and so every response in flight gets through with the body that it has
(`GroundedBlend.hasBodyOf_carryInFlight`).
-/

namespace DialogueSync.Client

open DialogueSync.Tree (Linked Grounded parentIn lineage climb)
open Message (SameBody)

variable {opened synced t t' : Tree} {id x : String} {m : Message}

/-! ### Blends -/

/-- A linked tree of the messages of a synchronised tree and some of an open one. -/
structure Blend (opened synced t : Tree) : Prop where
  /-- The tree is linked. -/
  linked : Linked t.messages
  /-- Everything that was synchronised is there. -/
  mem_of_synced : ∀ id, id ∈ synced.messages → id ∈ t.messages
  /-- A body is the synchronised one, or the open one of a message that was not synchronised complete. -/
  exists_origin : ∀ id m, t.get? id = some m → ∃ src, SameBody src m ∧
    (synced.get? id = some src ∨
      opened.get? id = some src ∧ ∀ m', synced.get? id = some m' → m'.done = false)

/-- The tree has the body of a message. -/
def HasBodyOf (t : Tree) (m : Message) : Prop :=
  ∃ m', t.get? m.id = some m' ∧ SameBody m m'

/-- The tree has the message complete. -/
def HasDone (t : Tree) (id : String) : Prop :=
  ∃ m, t.get? id = some m ∧ m.done = true

lemma hasDone_iff_any : HasDone t id ↔ (t.get? id).any Message.done = true := by
  rw [Option.any_eq_true]
  rfl

/-- Nothing is carried over at first. -/
lemma Blend.refl (h : Linked synced.messages) : Blend opened synced synced where
  linked := h
  mem_of_synced _ hid := hid
  exists_origin _ m hm := ⟨m, SameBody.refl m, Or.inl hm⟩

/-- A blend stays one when a message of the open tree is placed that was not synchronised complete. -/
lemma Blend.place (h : Blend opened synced t) (hm : opened.get? m.id = some m)
    (hdone : ∀ m', synced.get? m.id = some m' → m'.done = false) (hplace : t.place m = .ok t') :
    Blend opened synced t' := by
  have hinsert : t.insert m.parent m = .ok t' := hplace
  refine ⟨Tree.linked_insert h.linked hinsert, fun x hx => ?_, fun x m' hm' => ?_⟩
  · exact (Tree.mem_insert_iff h.linked hinsert).mpr (Or.inr (h.mem_of_synced x hx))
  · by_cases hx : x = m.id
    · subst hx
      obtain ⟨placed, hplaced, hsame, -⟩ := Tree.get?_insert_self h.linked hinsert
      obtain rfl := Option.some.inj (hplaced.symm.trans hm')
      exact ⟨m, hsame, Or.inr ⟨hm, hdone⟩⟩
    · obtain ⟨old, hold, hsame, -⟩ := Tree.get?_insert_of_ne h.linked hinsert hx hm'
      obtain ⟨src, hsrc, horigin⟩ := h.exists_origin x old hold
      exact ⟨src, hsrc.trans hsame, horigin⟩

/-- Attaching another message leaves a message with its body. -/
lemma HasBodyOf.insert (ht : Linked t.messages) (h : HasBodyOf t m) {parent : Option String}
    {m' : Message} (hinsert : t.insert parent m' = .ok t') (hne : m'.id ≠ m.id) :
    HasBodyOf t' m := by
  obtain ⟨old, hold, hsame⟩ := h
  obtain ⟨new, hnew⟩ := Tree.mem_iff_exists_get?.mp
    ((Tree.mem_insert_iff ht hinsert).mpr (Or.inr (Tree.mem_iff_exists_get?.mpr ⟨old, hold⟩)))
  obtain ⟨old', hold', hsame', -⟩ := Tree.get?_insert_of_ne ht hinsert (Ne.symm hne) hnew
  obtain rfl := Option.some.inj (hold.symm.trans hold')
  exact ⟨new, hnew, hsame.trans hsame'⟩

/-- A message that is attached has its own body. -/
lemma hasBodyOf_insert_self (ht : Linked t.messages) {parent : Option String}
    (hinsert : t.insert parent m = .ok t') : HasBodyOf t' m := by
  obtain ⟨placed, hplaced, hsame, -⟩ := Tree.get?_insert_self ht hinsert
  exact ⟨placed, hplaced, hsame⟩

/-! ### Single steps -/

/-- One step on the way to a response: the message is placed if it is the response, or not there. -/
def carryMessage (id : String) (t : Tree) (m : Message) : Tree :=
  if m.id = id || !t.contains m.id then (t.place m).toOption.getD t else t

lemma carryOver_eq_foldl (t : Tree) (id : String) (way : List Message) :
    carryOver t id way = way.foldl (carryMessage id) t :=
  rfl

/-- One response: it is carried over unless the tree has it complete. -/
def carryResponse (opened t : Tree) (id : String) : Tree :=
  if (t.get? id).any Message.done then t else carryOver t id (opened.path id)

/-- A response that the tree has complete is left alone, and any other one is carried over. -/
lemma carryResponse_cases (opened t : Tree) (id : String) :
    (HasDone t id ∧ carryResponse opened t id = t) ∨
      ¬ HasDone t id ∧ carryResponse opened t id = carryOver t id (opened.path id) := by
  rw [hasDone_iff_any, carryResponse]
  split
  next hdone => exact Or.inl ⟨hdone, rfl⟩
  next hdone => exact Or.inr ⟨hdone, rfl⟩

lemma carryInFlight_eq_foldl (opened : Tree) (streams : Streams) (synced : Tree) :
    carryInFlight opened streams synced = streams.active.foldl (carryResponse opened) synced :=
  rfl

/-- A step leaves the tree as it is, or places a message that is the response or not there. -/
lemma carryMessage_cases (id : String) (t : Tree) (m : Message) :
    carryMessage id t m = t ∨
      ∃ t', t.place m = .ok t' ∧ carryMessage id t m = t' ∧ (m.id = id ∨ m.id ∉ t.messages) := by
  unfold carryMessage
  split
  next hcond =>
    cases hplace : t.place m with
    | error e => exact Or.inl rfl
    | ok t' =>
      refine Or.inr ⟨t', rfl, rfl, ?_⟩
      rw [Bool.or_eq_true, decide_eq_true_eq] at hcond
      refine hcond.imp_right fun hnot hmem => ?_
      rw [show t.contains m.id = true from hmem] at hnot
      cases hnot
  next => exact Or.inl rfl

/-- One message leaves the children in order. -/
lemma linked_carryMessage (h : Linked t.messages) (id : String) (m : Message) :
    Linked (carryMessage id t m).messages := by
  rcases carryMessage_cases id t m with heq | ⟨t', hplace, heq, -⟩
  · rwa [heq]
  · rw [heq]
    exact Tree.linked_insert h hplace

lemma linked_carryOver (h : Linked t.messages) (id : String) (way : List Message) :
    Linked (carryOver t id way).messages := by
  rw [carryOver_eq_foldl]
  induction way generalizing t with
  | nil => exact h
  | cons m rest ih => exact ih (linked_carryMessage h id m)

/-- What the synchronised tree has complete, a blend has complete. -/
lemma Blend.hasDone (h : Blend opened synced t) (hsynced : HasDone synced id) : HasDone t id := by
  obtain ⟨m', hm', hdone⟩ := hsynced
  obtain ⟨m, hm⟩ := Tree.mem_iff_exists_get?.mp
    (h.mem_of_synced id (Tree.mem_iff_exists_get?.mpr ⟨m', hm'⟩))
  obtain ⟨src, hsame, hsrc | ⟨-, hnot⟩⟩ := h.exists_origin id m hm
  · obtain rfl := Option.some.inj (hm'.symm.trans hsrc)
    exact ⟨m, hm, hsame.done_eq.symm.trans hdone⟩
  · rw [hnot m' hm'] at hdone
    cases hdone

/-- What a blend has complete, one of the two trees has complete. -/
lemma Blend.hasDone_or (h : Blend opened synced t) (ht : HasDone t id) :
    HasDone synced id ∨ HasDone opened id := by
  obtain ⟨m, hm, hdone⟩ := ht
  obtain ⟨src, hsame, hsrc | ⟨hsrc, -⟩⟩ := h.exists_origin id m hm
  · exact Or.inl ⟨src, hsrc, hsame.done_eq.trans hdone⟩
  · exact Or.inr ⟨src, hsrc, hsame.done_eq.trans hdone⟩

/-- A response that a blend does not have complete was not synchronised complete. -/
lemma Blend.done_eq_false (h : Blend opened synced t) (hnot : ¬ HasDone t id) :
    ∀ m', synced.get? id = some m' → m'.done = false := by
  intro m' hm'
  cases hdone : m'.done with
  | false => rfl
  | true => exact absurd (h.hasDone ⟨m', hm', hdone⟩) hnot

/-! ### Blending -/

/-- A message that was in the opened tree may be carried over for a response that is not done. -/
lemma Blend.message (h : Blend opened synced t) (hm : opened.get? m.id = some m)
    (hdone : ∀ m', synced.get? id = some m' → m'.done = false) :
    Blend opened synced (carryMessage id t m) := by
  rcases carryMessage_cases id t m with heq | ⟨t', hplace, heq, hwhy⟩
  · rwa [heq]
  · rw [heq]
    refine h.place hm (fun m' hm' => ?_) hplace
    rcases hwhy with rfl | hnot
    · exact hdone m' hm'
    · exact absurd (h.mem_of_synced m.id (Tree.mem_iff_exists_get?.mpr ⟨m', hm'⟩)) hnot

lemma Blend.way (h : Blend opened synced t) {way : List Message}
    (hway : ∀ m ∈ way, opened.get? m.id = some m)
    (hdone : ∀ m', synced.get? id = some m' → m'.done = false) :
    Blend opened synced (carryOver t id way) := by
  rw [carryOver_eq_foldl]
  induction way generalizing t with
  | nil => exact h
  | cons m rest ih =>
    rw [List.foldl_cons]
    refine ih (h.message (hway m List.mem_cons_self) hdone) fun m' hm' => ?_
    exact hway m' (List.mem_cons_of_mem m hm')

/-- Carrying over one response leaves the two trees blended. -/
lemma Blend.response (h : Blend opened synced t) (hopened : Linked opened.messages)
    (id : String) : Blend opened synced (carryResponse opened t id) := by
  rcases carryResponse_cases opened t id with ⟨-, heq⟩ | ⟨hnot, heq⟩
  · rwa [heq]
  · rw [heq]
    exact h.way (fun m hm => Tree.get?_of_mem_path hopened.keyed hm) (h.done_eq_false hnot)

lemma Blend.responses (h : Blend opened synced t) (hopened : Linked opened.messages)
    (ids : List String) : Blend opened synced (ids.foldl (carryResponse opened) t) := by
  induction ids generalizing t with
  | nil => exact h
  | cons id rest ih => exact ih (h.response hopened id)

/-- What is in flight in a linked tree and carried over into another one makes a blend of the two. -/
lemma blend_carryInFlight (hopened : Linked opened.messages) (hsynced : Linked synced.messages)
    (streams : Streams) : Blend opened synced (carryInFlight opened streams synced) := by
  rw [carryInFlight_eq_foldl]
  exact (Blend.refl hsynced).responses hopened _

/-! ### Getting through -/

/-- A blend of grounded trees that is grounded itself and has their links. -/
structure GroundedBlend (opened synced t : Tree) : Prop extends Blend opened synced t where
  /-- Every parent that is named is there. -/
  mem_of_parentIn : ∀ id parent, parentIn t.messages id = some parent → parent ∈ t.messages
  /-- The links are those of the open tree. -/
  parentIn_opened : ∀ id, id ∈ t.messages → id ∈ opened.messages →
    parentIn t.messages id = parentIn opened.messages id
  /-- The links are those of the synchronised tree. -/
  parentIn_synced : ∀ id, id ∈ synced.messages →
    parentIn t.messages id = parentIn synced.messages id

namespace GroundedBlend

lemma grounded (h : GroundedBlend opened synced t) : Grounded t.messages :=
  ⟨h.linked, h.mem_of_parentIn⟩

lemma refl (h : Grounded synced.messages)
    (hagree : ∀ id, id ∈ synced.messages → id ∈ opened.messages →
      parentIn synced.messages id = parentIn opened.messages id) :
    GroundedBlend opened synced synced where
  toBlend := Blend.refl h.toLinked
  mem_of_parentIn := h.mem_of_parentIn
  parentIn_opened := hagree
  parentIn_synced _ _ := rfl

/-- A message of the open tree can be placed once its parent is there. -/
lemma place (h : GroundedBlend opened synced t) (hm : opened.get? m.id = some m)
    (hdone : ∀ m', synced.get? m.id = some m' → m'.done = false)
    (hparent : ∀ parent, m.parent = some parent → parent ∈ t.messages) :
    ∃ t', t.place m = .ok t' ∧ GroundedBlend opened synced t' := by
  have hlink : parentIn opened.messages m.id = m.parent := Tree.parentIn_of_get? hm
  have hmem : m.id ∈ opened.messages := Tree.mem_iff_exists_get?.mpr ⟨m, hm⟩
  have hinsert : ∃ t', t.insert m.parent m = .ok t' := by
    by_cases hid : m.id ∈ t.messages
    · refine Tree.exists_insert_of_parentIn h.linked ?_
      rw [h.parentIn_opened m.id hid hmem, hlink]
    · exact Tree.exists_insert_of_not_mem h.grounded hid m.parent
  obtain ⟨t', hinsert⟩ := hinsert
  have hfilter : m.parent.filter t.contains = m.parent := by
    cases hp : m.parent with
    | none => rfl
    | some parent => rw [Option.filter_some, if_pos (show t.contains parent from hparent parent hp)]
  have hnew : ∀ x, parentIn t'.messages x = if x = m.id then m.parent else parentIn t.messages x := by
    intro x
    rw [Tree.parentIn_of_insert h.linked hinsert, hfilter]
  refine ⟨t', hinsert, h.toBlend.place hm hdone hinsert,
    (Tree.grounded_insert h.grounded hinsert).mem_of_parentIn, fun x hx hx' => ?_, fun x hx => ?_⟩
  · rw [hnew]
    split
    next heq => rw [heq, hlink]
    next hne =>
      have hold := ((Tree.mem_insert_iff h.linked hinsert).mp hx).resolve_left hne
      exact h.parentIn_opened x hold hx'
  · rw [hnew, ← h.parentIn_synced x hx]
    split
    next heq =>
      subst heq
      rw [h.parentIn_opened m.id (h.mem_of_synced m.id hx) hmem, hlink]
    next => rfl

/-- A step succeeds once the parent is there, and then the message is there, with its body if it is the
response. -/
lemma message (h : GroundedBlend opened synced t) (hm : opened.get? m.id = some m)
    (hdone : ∀ m', synced.get? id = some m' → m'.done = false)
    (hparent : ∀ parent, m.parent = some parent → parent ∈ t.messages) :
    GroundedBlend opened synced (carryMessage id t m) ∧ m.id ∈ (carryMessage id t m).messages ∧
      (m.id = id → HasBodyOf (carryMessage id t m) m) := by
  unfold carryMessage
  split
  next hcond =>
    have hdone' : ∀ m', synced.get? m.id = some m' → m'.done = false := by
      intro m' hm'
      rw [Bool.or_eq_true, decide_eq_true_eq] at hcond
      rcases hcond with rfl | hnot
      · exact hdone m' hm'
      · have hmem := h.mem_of_synced m.id (Tree.mem_iff_exists_get?.mpr ⟨m', hm'⟩)
        rw [show t.contains m.id = true from hmem] at hnot
        cases hnot
    obtain ⟨t', hplace, ht'⟩ := h.place hm hdone' hparent
    have hbody : HasBodyOf t' m := hasBodyOf_insert_self h.linked hplace
    have hmem : m.id ∈ t'.messages :=
      Tree.mem_iff_exists_get?.mpr (hbody.imp fun _ hm' => hm'.1)
    rw [hplace]
    exact ⟨ht', hmem, fun _ => hbody⟩
  next hcond =>
    rw [Bool.not_eq_true, Bool.or_eq_false_iff, decide_eq_false_iff_not, Bool.not_eq_false'] at hcond
    exact ⟨h, hcond.2, fun heq => absurd heq hcond.1⟩

/-- On the way down to an id of the open tree every message gets through, and the response with its body. The
way is complete if the way up from the id ends within as many messages as are looked at. -/
lemma way_lineage (hopened : Grounded opened.messages) (h : GroundedBlend opened synced t)
    (hdone : ∀ m', synced.get? id = some m' → m'.done = false) {count : Nat} (hm : opened.get? x = some m)
    (hend : climb (parentIn opened.messages) count x = none) :
    let t' := carryOver t id ((lineage opened.messages count x).filterMap opened.get?).reverse
    GroundedBlend opened synced t' ∧ x ∈ t'.messages ∧ (x = id → HasBodyOf t' m) := by
  induction count generalizing x m with
  | zero => cases hend
  | succ count ih =>
    obtain rfl : m.id = x := hopened.keyed x m hm
    have hlink : parentIn opened.messages m.id = m.parent := Tree.parentIn_of_get? hm
    dsimp only
    rw [carryOver_eq_foldl, lineage, hlink]
    cases hp : m.parent with
    | none =>
      have hnone : ∀ parent, m.parent = some parent → parent ∈ t.messages := by
        rw [hp]
        exact fun _ hparent => by cases hparent
      simpa [hm] using h.message hm hdone hnone
    | some parent =>
      obtain ⟨above, habove⟩ := Tree.mem_iff_exists_get?.mp
        (hopened.mem_of_parentIn m.id parent (hlink.trans hp))
      have hrest : climb (parentIn opened.messages) count parent = none := by
        rwa [Tree.climb_succ, hlink, hp, Option.bind_some] at hend
      obtain ⟨hblend, hmem, -⟩ := ih habove hrest
      have hparent : ∀ p, m.parent = some p → p ∈ (carryOver t id
          ((lineage opened.messages count parent).filterMap opened.get?).reverse).messages := by
        intro p hp'
        rw [hp] at hp'
        exact Option.some.inj hp' ▸ hmem
      rw [List.filterMap_cons, hm]
      simp only [List.reverse_cons, List.foldl_append, List.foldl_cons, List.foldl_nil]
      exact hblend.message hm hdone hparent

/-- A response is carried over with its body, unless the synchronised tree has it complete. -/
lemma way_path (hopened : Grounded opened.messages) (h : GroundedBlend opened synced t)
    (hdone : ∀ m', synced.get? id = some m' → m'.done = false) :
    GroundedBlend opened synced (carryOver t id (opened.path id)) ∧
      ∀ m, opened.get? id = some m → HasBodyOf (carryOver t id (opened.path id)) m := by
  cases hm : opened.get? id with
  | some m =>
    have hmem : id ∈ opened.messages := Tree.mem_iff_exists_get?.mpr ⟨m, hm⟩
    obtain ⟨hblend, -, hbody⟩ := way_lineage hopened h hdone hm (hopened.climb_size hmem)
    refine ⟨hblend, fun m' hm' => ?_⟩
    obtain rfl := Option.some.inj hm'
    exact hbody rfl
  | none =>
    have hid : id ∉ opened.messages := by
      intro hmem
      obtain ⟨m, hm'⟩ := Tree.mem_iff_exists_get?.mp hmem
      rw [hm] at hm'
      cases hm'
    rw [Tree.path_eq_nil_iff.mpr hid]
    exact ⟨h, fun m hm => by cases hm⟩

/-- Carrying over one response leads no chain of parents into a circle. -/
lemma response (hopened : Grounded opened.messages) (h : GroundedBlend opened synced t)
    (id : String) : GroundedBlend opened synced (carryResponse opened t id) := by
  rcases carryResponse_cases opened t id with ⟨-, heq⟩ | ⟨hnot, heq⟩
  · rwa [heq]
  · rw [heq]
    exact (way_path hopened h (h.done_eq_false hnot)).1

lemma responses (hopened : Grounded opened.messages) (h : GroundedBlend opened synced t)
    (ids : List String) : GroundedBlend opened synced (ids.foldl (carryResponse opened) t) := by
  induction ids generalizing t with
  | nil => exact h
  | cons id rest ih => exact ih (h.response hopened id)

end GroundedBlend

/-- What has been carried over keeps its body when further messages of the open tree are placed. -/
lemma HasBodyOf.message (hm : opened.get? m.id = some m) (ht : Linked t.messages) (h : HasBodyOf t m)
    {m' : Message} (hm' : opened.get? m'.id = some m') (id : String) :
    HasBodyOf (carryMessage id t m') m := by
  rcases carryMessage_cases id t m' with heq | ⟨t', hplace, heq, -⟩
  · rwa [heq]
  · rw [heq]
    by_cases hid : m'.id = m.id
    · rw [hid, hm] at hm'
      obtain rfl := Option.some.inj hm'
      exact hasBodyOf_insert_self ht hplace
    · exact h.insert ht hplace hid

/-- The body of a message remains while a way is carried over. -/
lemma HasBodyOf.way (hm : opened.get? m.id = some m) (ht : Linked t.messages) (h : HasBodyOf t m)
    {way : List Message} (hway : ∀ m' ∈ way, opened.get? m'.id = some m') (id : String) :
    HasBodyOf (carryOver t id way) m := by
  rw [carryOver_eq_foldl]
  induction way generalizing t with
  | nil => exact h
  | cons first rest ih =>
    have hfirst := hway first List.mem_cons_self
    refine ih (linked_carryMessage ht id first) (h.message hm ht hfirst id) fun m' hm' => ?_
    exact hway m' (List.mem_cons_of_mem _ hm')

lemma HasBodyOf.response (hopened : Linked opened.messages) (hm : opened.get? m.id = some m)
    (ht : Blend opened synced t) (h : HasBodyOf t m) (id : String) :
    HasBodyOf (carryResponse opened t id) m := by
  rcases carryResponse_cases opened t id with ⟨-, heq⟩ | ⟨-, heq⟩
  · rwa [heq]
  · rw [heq]
    exact h.way hm ht.linked (fun m' hm' => Tree.get?_of_mem_path hopened.keyed hm') id

lemma HasBodyOf.responses (hopened : Linked opened.messages)
    (hm : opened.get? m.id = some m) (ht : Blend opened synced t) (h : HasBodyOf t m)
    (ids : List String) : HasBodyOf (ids.foldl (carryResponse opened) t) m := by
  induction ids generalizing t with
  | nil => exact h
  | cons id rest ih => exact ih (ht.response hopened id) (h.response hopened hm ht id)

/-- Between grounded trees that agree on parents, everything is carried over that is in flight and complete in
neither of them. -/
lemma GroundedBlend.hasBodyOf_carryInFlight (hopened : Grounded opened.messages)
    (hsynced : Grounded synced.messages)
    (hagree : ∀ id, id ∈ synced.messages → id ∈ opened.messages →
      parentIn synced.messages id = parentIn opened.messages id) (streams : Streams) :
    GroundedBlend opened synced (carryInFlight opened streams synced) ∧
      ∀ m, opened.get? m.id = some m → m.done = false → streams.isActive m.id →
        (∀ m', synced.get? m.id = some m' → m'.done = false) →
          HasBodyOf (carryInFlight opened streams synced) m := by
  have hstart := GroundedBlend.refl hsynced hagree
  rw [carryInFlight_eq_foldl]
  refine ⟨hstart.responses hopened _, fun m hm hopen hactive hsync => ?_⟩
  have hmem : m.id ∈ streams.active :=
    Std.ExtTreeMap.mem_keys.mpr (Std.ExtTreeMap.contains_iff_mem.mp hactive)
  obtain ⟨before, after, hsplit⟩ := List.append_of_mem hmem
  rw [hsplit, List.foldl_append, List.foldl_cons]
  -- Up to here the response may be there or not, but it is not complete.
  have hblend := hstart.responses hopened before
  have hnot : ¬ HasDone (before.foldl (carryResponse opened) synced) m.id := by
    intro hdone
    obtain ⟨src, hsrc, hdone⟩ | ⟨src, hsrc, hdone⟩ := hblend.hasDone_or hdone
    · rw [hsync src hsrc] at hdone
      cases hdone
    · obtain rfl := Option.some.inj (hm.symm.trans hsrc)
      rw [hopen] at hdone
      cases hdone
  have hbody : HasBodyOf (carryResponse opened (before.foldl (carryResponse opened) synced) m.id) m := by
    rw [((carryResponse_cases opened _ m.id).resolve_left fun h => hnot h.1).2]
    exact (way_path hopened hblend hsync).2 m hm
  exact hbody.responses hopened.toLinked hm
    (hblend.toBlend.response hopened.toLinked m.id) after

end DialogueSync.Client
