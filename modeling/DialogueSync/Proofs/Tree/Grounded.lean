import DialogueSync.Proofs.Bodies
import DialogueSync.Proofs.Tree.Changes

/-!
# Grounded trees

A linked tree is `Grounded` if every parent that a message names is there. In such a tree the way up from a
message stays in the tree and ends within as many messages as there are (`Grounded.climb_size`), so the way
down to a message is complete. A grounded tree stays grounded when messages are attached and taken out.

Nothing that is done to a linked tree touches the bodies of the messages that it leaves, except that a body
is put in the place of another one (`linked_setBody`).
-/

namespace DialogueSync.Tree

open Message (SameBody)

variable {ms ms' : IdMap Message} {t t' : Tree} {id : String} {m : Message}

/-! ### Grounded trees -/

/-- Linked messages of which every one that names a parent has it. -/
structure Grounded (ms : IdMap Message) : Prop extends Linked ms where
  /-- The parent that a message names is there. -/
  mem_of_parentIn : ∀ id parent, parentIn ms id = some parent → parent ∈ ms

/-- Where there are no messages there is no circle of parents. -/
lemma grounded_empty : Grounded (∅ : IdMap Message) := by
  have hnone : ∀ id : String, (∅ : IdMap Message)[id]? = none := fun id =>
    Std.ExtTreeMap.getElem?_empty
  have hroot : ∀ id, parentIn ∅ id = none := by
    intro id
    rw [parentIn, hnone, Option.bind_none]
  refine ⟨⟨fun id m hm => ?_, fun id => not_circular_of_link_eq_none (hroot id), fun id m hm => ?_⟩,
    fun id parent hp => ?_⟩
  · rw [hnone] at hm
    cases hm
  · rw [hnone] at hm
    cases hm
  · rw [hroot] at hp
    cases hp

/-- The way up from a message of a grounded tree stays in the tree. -/
lemma Grounded.mem_of_climb (h : Grounded ms) (hid : id ∈ ms) {count : Nat} {x : String}
    (hup : climb (parentIn ms) count id = some x) : x ∈ ms := by
  induction count generalizing id with
  | zero => exact Option.some.inj hup ▸ hid
  | succ count ih =>
    rw [climb_succ, Option.bind_eq_some_iff] at hup
    obtain ⟨parent, hp, hup⟩ := hup
    exact ih (h.mem_of_parentIn id parent hp) hup

/-- The way up from a message of a grounded tree ends within as many messages as there are. -/
lemma Grounded.climb_size (h : Grounded ms) (hid : id ∈ ms) :
    climb (parentIn ms) ms.size id = none := by
  refine Option.eq_none_iff_forall_ne_some.mpr fun top htop => ?_
  exact Nat.lt_irrefl ms.size (lt_size_of_climb h.acyclic htop (h.mem_of_climb hid htop))

/-! ### Attaching -/

/-- After attaching, the message stands where it was to be hung, every other one is as before, and the
children are derived. -/
lemma get?_insert (h : Linked t.messages) {parent : Option String}
    (hinsert : t.insert parent m = .ok t') (x : String) :
    t'.get? x = (if x = m.id then some (t.hung parent m) else t.get? x).map fun m' =>
      { m' with children := childrenIn (t.messages.insert m.id (t.hung parent m)) x } := by
  rw [messages_insert h hinsert]
  change (relinkAll (t.messages.insert m.id (t.hung parent m)))[x]? = _
  rw [getElem?_relinkAll, Std.ExtTreeMap.getElem?_insert]
  simp only [Std.compare_eq_iff_eq]
  by_cases hx : x = m.id
  · rw [if_pos hx.symm, if_pos hx]
  · rw [if_neg (Ne.symm hx), if_neg hx]
    rfl

/-- The message that is attached keeps its body and stands under the parent if that is there. -/
lemma get?_insert_self (h : Linked t.messages) {parent : Option String}
    (hinsert : t.insert parent m = .ok t') :
    ∃ m', t'.get? m.id = some m' ∧ SameBody m m' ∧ m'.parent = parent.filter t.contains := by
  refine ⟨{ t.hung parent m with
    children := childrenIn (t.messages.insert m.id (t.hung parent m)) m.id }, ?_, rfl, rfl⟩
  rw [get?_insert h hinsert, if_pos rfl, Option.map_some]

/-- Every other message keeps its body and its parent. -/
lemma get?_insert_of_ne (h : Linked t.messages) {parent : Option String}
    (hinsert : t.insert parent m = .ok t') {x : String} (hx : x ≠ m.id) {m' : Message}
    (hm' : t'.get? x = some m') :
    ∃ old, t.get? x = some old ∧ SameBody old m' ∧ m'.parent = old.parent := by
  rw [get?_insert h hinsert, if_neg hx, Option.map_eq_some_iff] at hm'
  obtain ⟨old, hold, rfl⟩ := hm'
  exact ⟨old, hold, rfl, rfl⟩

/-- After attaching, the message is there, and so is everything that was there before. -/
lemma mem_insert_iff (h : Linked t.messages) {parent : Option String}
    (hinsert : t.insert parent m = .ok t') {x : String} :
    x ∈ t'.messages ↔ x = m.id ∨ x ∈ t.messages := by
  rw [mem_iff_exists_get?, mem_iff_exists_get?, get?_insert h hinsert]
  by_cases hx : x = m.id
  · simp [hx]
  · simp [hx]

/-- An insertion changes no parent but that of the inserted message, which loses a parent that is not there. -/
lemma parentIn_of_insert (h : Linked t.messages) {parent : Option String}
    (hinsert : t.insert parent m = .ok t') (x : String) :
    parentIn t'.messages x =
      if x = m.id then parent.filter t.contains else parentIn t.messages x := by
  rw [parentIn, show t'.messages[x]? = t'.get? x from rfl, get?_insert h hinsert]
  by_cases hx : x = m.id
  · rw [if_pos hx, if_pos hx]
    rfl
  · rw [if_neg hx, if_neg hx, parentIn]
    change ((t.messages[x]?).map _).bind _ = _
    cases t.messages[x]? <;> rfl

/-- A grounded tree stays grounded when a message is attached. -/
lemma grounded_insert (h : Grounded t.messages) {parent : Option String}
    (hinsert : t.insert parent m = .ok t') : Grounded t'.messages := by
  refine ⟨linked_insert h.toLinked hinsert, fun x p hp => ?_⟩
  rw [parentIn_of_insert h.toLinked hinsert] at hp
  rw [mem_insert_iff h.toLinked hinsert]
  split at hp
  · exact Or.inr (Option.filter_eq_some_iff.mp hp).2
  · exact Or.inr (h.mem_of_parentIn x p hp)

/-- A message that is not in a grounded tree can be attached anywhere. -/
lemma exists_insert_of_not_mem (h : Grounded t.messages) (hm : m.id ∉ t.messages)
    (parent : Option String) : ∃ t', t.insert parent m = .ok t' := by
  rcases insert_cases h.toLinked parent m with ⟨p, hp, hwithin, -⟩ | ⟨-, hok⟩
  · obtain ⟨count, hup⟩ := isWithin_iff.mp hwithin
    have hmem : p ∈ t.messages := (Option.filter_eq_some_iff.mp hp).2
    exact absurd (h.mem_of_climb hmem hup) hm
  · exact ⟨_, hok⟩

/-- A message can be attached again under the parent that it has. -/
lemma exists_insert_of_parentIn (h : Linked t.messages) {parent : Option String}
    (hparent : parentIn t.messages m.id = parent) : ∃ t', t.insert parent m = .ok t' := by
  rcases insert_cases h parent m with ⟨p, hp, hwithin, -⟩ | ⟨-, hok⟩
  · obtain ⟨count, hup⟩ := isWithin_iff.mp hwithin
    have hlink : parentIn t.messages m.id = some p := by
      rw [hparent]
      exact (Option.filter_eq_some_iff.mp hp).1
    refine absurd ⟨count, ?_⟩ (h.acyclic m.id)
    rw [climb_succ, hlink, Option.bind_some, hup]
  · exact ⟨_, hok⟩

/-! ### Taking out -/

/-- A message that is not taken out keeps its body. -/
lemma exists_get?_remove (h : Linked t.messages) {x : String} (hm : t.get? x = some m)
    (hx : ¬ isWithin t.messages x id) : ∃ m', (t.remove id).get? x = some m' ∧ SameBody m m' := by
  by_cases hid : id ∈ t.messages
  · refine ⟨{ m with children := childrenIn (without t.messages id) x }, ?_, rfl⟩
    rw [remove_of_mem h hid]
    change (relinkAll (without t.messages id))[x]? = _
    rw [getElem?_relinkAll, getElem?_without, if_neg hx, show t.messages[x]? = some m from hm]
    rfl
  · rw [remove_of_not_mem hid]
    exact ⟨m, hm, SameBody.refl m⟩

/-- What is left was there before, with the same body and under the same parent. -/
lemma exists_of_get?_remove (h : Linked t.messages) {x : String}
    (hm : (t.remove id).get? x = some m) :
    ∃ old, t.get? x = some old ∧ SameBody old m ∧ m.parent = old.parent := by
  by_cases hid : id ∈ t.messages
  · rw [remove_of_mem h hid] at hm
    change (relinkAll (without t.messages id))[x]? = some m at hm
    rw [getElem?_relinkAll, getElem?_without, Option.map_eq_some_iff] at hm
    obtain ⟨old, hold, rfl⟩ := hm
    split at hold
    · cases hold
    · exact ⟨old, hold, rfl, rfl⟩
  · rw [remove_of_not_mem hid] at hm
    exact ⟨m, hm, SameBody.refl m, rfl⟩

/-- A grounded tree stays grounded when a message is taken out with everything below it. -/
lemma grounded_remove (h : Grounded t.messages) (id : String) : Grounded (t.remove id).messages := by
  refine ⟨linked_remove h.toLinked id, fun x parent hp => ?_⟩
  by_cases hid : id ∈ t.messages
  · rw [remove_of_mem h.toLinked hid] at hp ⊢
    change parentIn (relinkAll (without t.messages id)) x = some parent at hp
    rw [parentIn_relinkAll] at hp
    obtain ⟨hold, hx⟩ := parentIn_of_without hp
    have hparent : ¬ isWithin t.messages parent id := by
      intro hwithin
      obtain ⟨count, hup⟩ := isWithin_iff.mp hwithin
      exact hx (isWithin_iff.mpr ⟨count + 1, by rw [climb_succ, hold, Option.bind_some, hup]⟩)
    change parent ∈ relinkAll (without t.messages id)
    obtain ⟨m, hm⟩ := mem_iff_exists_getElem?.mp (h.mem_of_parentIn x parent hold)
    rw [mem_iff_exists_getElem?, getElem?_relinkAll, getElem?_without, if_neg hparent, hm]
    exact ⟨_, rfl⟩
  · rw [remove_of_not_mem hid] at hp ⊢
    exact h.mem_of_parentIn x parent hp

/-! ### Changing a body -/

/-- The messages stand in the same place: they have the same links and the same rank. -/
structure SamePlace (m m' : Message) : Prop where
  parent_eq : m'.parent = m.parent
  children_eq : m'.children = m.children
  rank_eq : m'.rank = m.rank

lemma SamePlace.id_eq {m m' : Message} (h : SamePlace m m') : m'.id = m.id :=
  congrArg Rank.id h.rank_eq

/-- Only the message with this id is exchanged. -/
lemma get?_setBody (t : Tree) (m : Message) (x : String) :
    (t.setBody m).get? x = (t.get? x).map fun old => if x = m.id then m else old := by
  change (t.messages.modify m.id fun _ => m)[x]? = _
  rw [Std.ExtTreeMap.getElem?_modify]
  simp only [Std.compare_eq_iff_eq]
  by_cases hx : m.id = x
  · subst hx
    rw [if_pos rfl]
    exact Option.map_congr fun _ _ => (if_pos rfl).symm
  · rw [if_neg hx]
    cases hm : t.get? x with
    | none => exact hm
    | some old =>
      rw [Option.map_some, if_neg (Ne.symm hx)]
      exact hm

/-- A body that is put in its place is found there. -/
lemma get?_setBody_self {old : Message} (h : t.get? m.id = some old) :
    (t.setBody m).get? m.id = some m := by
  rw [get?_setBody, h, Option.map_some, if_pos rfl]

/-- Of two bodies put in the place of one message the later counts. -/
lemma setBody_setBody (t : Tree) {m m' : Message} (hid : m'.id = m.id) :
    (t.setBody m).setBody m' = t.setBody m' := by
  have hmessages : ((t.setBody m).setBody m').messages = (t.setBody m').messages := by
    refine Std.ExtTreeMap.ext_getElem? fun {x} => ?_
    change ((t.setBody m).setBody m').get? x = (t.setBody m').get? x
    rw [get?_setBody, get?_setBody, get?_setBody, hid]
    cases t.get? x with
    | none => rfl
    | some old => by_cases hx : x = m.id <;> simp [hx]
  exact congrArg (fun ms => Tree.mk ms t.current) hmessages

/-- No id comes or goes. -/
lemma mem_setBody_iff {x : String} : x ∈ (t.setBody m).messages ↔ x ∈ t.messages := by
  rw [mem_iff_exists_get?, mem_iff_exists_get?, get?_setBody]
  cases t.get? x <;> simp

section SetBody

variable {old : Message} (hold : t.get? m.id = some old) (hplace : SamePlace old m)
include hold hplace

/-- So what depends on parents and ranks only is as before. -/
lemma exists_place_setBody_iff {P : Option String → Rank → Prop} {x : String} :
    (∃ m', (t.setBody m).get? x = some m' ∧ P m'.parent m'.rank) ↔
      ∃ m', t.get? x = some m' ∧ P m'.parent m'.rank := by
  rw [get?_setBody]
  by_cases hx : x = m.id
  · subst hx
    simp [hold, hplace.parent_eq, hplace.rank_eq]
  · cases t.get? x <;> simp [hx]

lemma parentIn_setBody (x : String) : parentIn (t.setBody m).messages x = parentIn t.messages x := by
  have hpoint : ∀ p, parentIn (t.setBody m).messages x = some p ↔ parentIn t.messages x = some p := by
    intro p
    rw [parentIn, parentIn, Option.bind_eq_some_iff, Option.bind_eq_some_iff]
    exact exists_place_setBody_iff hold hplace (P := fun parent _ => parent = some p)
  exact Option.ext hpoint

/-- A linked tree stays linked when the body of a message is changed in its place. -/
lemma linked_setBody (h : Linked t.messages) : Linked (t.setBody m).messages := by
  have hchildren : ∀ x, childrenIn (t.setBody m).messages x = childrenIn t.messages x := by
    intro x
    refine childrenIn_congr fun child r => ?_
    exact exists_place_setBody_iff hold hplace (P := fun parent rank => parent = some x ∧ rank = r)
  refine ⟨fun x m' hm' => ?_, fun x => ?_, fun x m' hm' => ?_⟩
  · change (t.setBody m).get? x = some m' at hm'
    rw [get?_setBody, Option.map_eq_some_iff] at hm'
    obtain ⟨old', hold', rfl⟩ := hm'
    split
    next hx => exact hx.symm
    next => exact h.keyed x old' hold'
  · rw [show parentIn (t.setBody m).messages = parentIn t.messages from
      funext (parentIn_setBody hold hplace)]
    exact h.acyclic x
  · change (t.setBody m).get? x = some m' at hm'
    rw [get?_setBody, Option.map_eq_some_iff] at hm'
    obtain ⟨old', hold', rfl⟩ := hm'
    rw [hchildren]
    split
    next hx =>
      subst hx
      obtain rfl := Option.some.inj (hold.symm.trans hold')
      rw [hplace.children_eq]
      exact h.children_eq m.id old hold
    next => exact h.children_eq x old' hold'

lemma grounded_setBody (h : Grounded t.messages) : Grounded (t.setBody m).messages := by
  refine ⟨linked_setBody hold hplace h.toLinked, fun x parent hp => ?_⟩
  rw [parentIn_setBody hold hplace] at hp
  exact mem_setBody_iff.mpr (h.mem_of_parentIn x parent hp)

end SetBody

end DialogueSync.Tree
