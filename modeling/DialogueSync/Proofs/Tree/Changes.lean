import DialogueSync.Proofs.Tree.WellFormed
import DialogueSync.Tree.Edit

/-!
# Changing linked trees

Attaching a message derives the children of three messages only: of the message itself, of its old and of
its new parent. In a linked tree this comes to the same as deriving the children of all messages
(`insert_cases`), and it closes no circle, since the new parent must not stand within the message
(`not_circular_of_link`). Taking out a message takes out exactly what stands within it (`mem_subtree_iff`),
and again deriving the children of one parent is enough (`messages_remove`).

So a linked tree stays linked whatever is done to it, and the selected message stays in the tree.
-/

namespace DialogueSync.Tree

variable {ms ms' : IdMap Message} {t t' : Tree} {id : String} {m : Message}

/-! ### Deriving the children of single messages -/

/-- The message with this id has the children that follow from the parent links. -/
def LinkedAt (ms : IdMap Message) (id : String) : Prop :=
  ∀ m : Message, ms[id]? = some m → m.children = childrenIn ms id

/-- Deriving the children of one message changes nothing but its list of children. -/
lemma getElem?_relink (ms : IdMap Message) (id x : String) :
    (relink ms id)[x]? =
      ms[x]?.map fun m => { m with children := if x = id then childrenIn ms id else m.children } := by
  rw [relink, Std.ExtTreeMap.getElem?_modify]
  simp only [Std.compare_eq_iff_eq]
  by_cases hx : id = x
  · subst hx
    simp
  · simp [hx, Ne.symm hx]

/-- The derived children do not change with the list of children that a message carries. -/
lemma childrenIn_relink (ms : IdMap Message) (id x : String) :
    childrenIn (relink ms id) x = childrenIn ms x :=
  childrenIn_eq_of_children (getElem?_relink ms id) x

/-- Once all children are derived, it does not matter which of them were derived before. -/
lemma relinkAll_relink (ms : IdMap Message) (id : String) :
    relinkAll (relink ms id) = relinkAll ms :=
  relinkAll_eq_of_children (getElem?_relink ms id)

/-- Deriving the children of a message makes it right there and leaves it right elsewhere. -/
lemma linkedAt_relink {x : String} (h : x = id ∨ LinkedAt ms x) : LinkedAt (relink ms id) x := by
  intro m hm
  rw [getElem?_relink, Option.map_eq_some_iff] at hm
  obtain ⟨m', hm', rfl⟩ := hm
  rw [childrenIn_relink]
  by_cases hx : x = id
  · simp [hx]
  · rw [if_neg hx]
    exact h.resolve_left hx m' hm'

/-- Deriving the children of a message that may not be there changes nothing but its list of children. -/
lemma relinkAll_relinkOption (ms : IdMap Message) (o : Option String) :
    relinkAll (relinkOption ms o) = relinkAll ms := by
  cases o with
  | none => rfl
  | some id => exact relinkAll_relink ms id

/-- A message is linked after relinking it, or if it was before. -/
lemma linkedAt_relinkOption {o : Option String} {x : String} (h : o = some x ∨ LinkedAt ms x) :
    LinkedAt (relinkOption ms o) x := by
  cases o with
  | none => exact h.resolve_left (by simp)
  | some id => exact linkedAt_relink (h.imp_left fun hx => (Option.some.inj hx).symm)

/-- If the children of every message are right already, deriving them changes nothing. -/
lemma relinkAll_eq_self (h : ∀ id, LinkedAt ms id) : relinkAll ms = ms := by
  refine Std.ExtTreeMap.ext_getElem? fun {id} => ?_
  rw [getElem?_relinkAll]
  cases hm : ms[id]? with
  | none => rfl
  | some m => rw [Option.map_some, ← h id m hm]

/-! ### Giving a message a new parent -/

section Links

variable {link link' : String → Option String} {a : String}

/-- If only the link of one id is changed, a way up is an old one or comes past that id, which is then
reached by the old links too. -/
lemma climb_or_climb (hlink : ∀ x, x ≠ a → link' x = link x) {count : Nat} {x y : String}
    (hc : climb link' count x = some y) :
    climb link count x = some y ∨
      ∃ i < count, climb link i x = some a ∧ climb link' i x = some a := by
  induction count generalizing x with
  | zero => exact Or.inl hc
  | succ count ih =>
    by_cases hx : x = a
    · subst hx
      exact Or.inr ⟨0, Nat.succ_pos _, rfl, rfl⟩
    rw [climb_succ, Option.bind_eq_some_iff] at hc
    obtain ⟨parent, hp, hup⟩ := hc
    have hp' : link x = some parent := by rw [← hlink x hx, hp]
    rcases ih hup with hold | ⟨i, hi, hold, hnew⟩
    · exact Or.inl (by rw [climb_succ, hp', Option.bind_some, hold])
    · refine Or.inr ⟨i + 1, Nat.succ_lt_succ hi, ?_, ?_⟩
      · rw [climb_succ, hp', Option.bind_some, hold]
      · rw [climb_succ, hp, Option.bind_some, hnew]

/-- If only the link of one id is changed, and to a parent that does not stand within the id, then no
circle is closed. -/
lemma not_circular_of_link (hlink : ∀ x, x ≠ a → link' x = link x)
    (hparent : ∀ parent, link' a = some parent → ∀ count, climb link count parent ≠ some a)
    (h : ∀ x, ¬ Circular link x) (x : String) : ¬ Circular link' x := by
  rintro ⟨count, hcount⟩
  -- A circle that was not there before comes past the id, so it can be followed from there.
  have ha : climb link' (count + 1) a = some a := by
    rcases climb_or_climb hlink hcount with hold | ⟨i, hi, -, hnew⟩
    · exact absurd ⟨count, hold⟩ (h x)
    · have hrest : climb link' (count + 1 - i) a = some x := by
        have hsplit : climb link' (i + (count + 1 - i)) x = some x := by
          rwa [Nat.add_sub_cancel' (Nat.le_of_lt hi)]
        rwa [climb_add, hnew, Option.bind_some] at hsplit
      have hround : climb link' ((count + 1 - i) + i) a = some a := by
        rw [climb_add, hrest, Option.bind_some, hnew]
      rwa [Nat.sub_add_cancel (Nat.le_of_lt hi)] at hround
  rw [climb_succ, Option.bind_eq_some_iff] at ha
  obtain ⟨parent, hp, hup⟩ := ha
  rcases climb_or_climb hlink hup with hold | ⟨i, -, hold, -⟩
  · exact hparent parent hp count hold
  · exact hparent parent hp i hold

end Links

/-! ### Attaching -/

/-- The parents after a message is put in. -/
lemma parentIn_insert (ms : IdMap Message) (m : Message) (x : String) :
    parentIn (ms.insert m.id m) x = if x = m.id then m.parent else parentIn ms x := by
  rw [parentIn, Std.ExtTreeMap.getElem?_insert]
  simp only [Std.compare_eq_iff_eq]
  by_cases hx : m.id = x
  · subst hx
    simp
  · simp [hx, Ne.symm hx, parentIn]

/-- Putting in a message closes no circle if its parent does not stand within it. -/
lemma not_circular_insert (h : ∀ x, ¬ Circular (parentIn ms) x)
    (hparent : ∀ parent, m.parent = some parent → ¬ isWithin ms parent m.id) (x : String) :
    ¬ Circular (parentIn (ms.insert m.id m)) x := by
  refine not_circular_of_link (a := m.id) (fun y hy => ?_) (fun parent hp count hup => ?_) h x
  · rw [parentIn_insert, if_neg hy]
  · rw [parentIn_insert, if_pos rfl] at hp
    exact hparent parent hp (isWithin_iff.mpr ⟨count, hup⟩)

/-- Putting in a message changes the children of no other message but its old and its new parent. -/
lemma linkedAt_insert {x : String} (h : LinkedAt ms x) (hid : x ≠ m.id)
    (hprevious : parentIn ms m.id ≠ some x) (hparent : m.parent ≠ some x) :
    LinkedAt (ms.insert m.id m) x := by
  intro m' hm'
  rw [Std.ExtTreeMap.getElem?_insert] at hm'
  simp only [Std.compare_eq_iff_eq] at hm'
  rw [if_neg (Ne.symm hid)] at hm'
  rw [h m' hm']
  refine childrenIn_congr fun child r => ?_
  rw [Std.ExtTreeMap.getElem?_insert]
  simp only [Std.compare_eq_iff_eq]
  by_cases hchild : m.id = child
  · subst hchild
    refine iff_of_false ?_ ?_
    · rintro ⟨old, hold, hp, -⟩
      exact hprevious (by rw [parentIn, hold, Option.bind_some, hp])
    · rintro ⟨new, hnew, hp, -⟩
      rw [if_pos rfl] at hnew
      obtain rfl := Option.some.inj hnew
      exact hparent hp
  · rw [if_neg hchild]

/-- The message as it is attached: under the parent if that is in the tree, and as a root otherwise. -/
def hung (t : Tree) (parent : Option String) (m : Message) : Message :=
  { m with parent := parent.filter t.contains }

/-- In a linked tree, attaching a message is refused if the parent stands within it, and otherwise comes to
putting it in and deriving the children of all messages. -/
lemma insert_cases (h : Linked t.messages) (parent : Option String) (m : Message) :
    (∃ p, (t.hung parent m).parent = some p ∧ isWithin t.messages p m.id ∧
        t.insert parent m = .error (.wouldCycle m.id p)) ∨
      (∀ p, (t.hung parent m).parent = some p → ¬ isWithin t.messages p m.id) ∧
        t.insert parent m =
          .ok { t with messages := relinkAll (t.messages.insert m.id (t.hung parent m)) } := by
  cases hwithin : (parent.filter t.contains).filter fun p => isWithin t.messages p m.id with
  | some p =>
    obtain ⟨hp, hmem⟩ := Option.filter_eq_some_iff.mp hwithin
    refine Or.inl ⟨p, hp, hmem, ?_⟩
    rw [insert]
    simp only [hwithin]
  | none =>
    have hfree : ∀ p, (t.hung parent m).parent = some p → ¬ isWithin t.messages p m.id := by
      intro p hp
      have hall := Option.filter_eq_none_iff.mp hwithin p
      exact hall hp
    refine Or.inr ⟨hfree, ?_⟩
    rw [insert]
    simp only [hwithin]
    congr 2
    set attached := t.messages.insert m.id (t.hung parent m) with hattached
    set previous := (parentIn t.messages m.id).filter fun p => some p != parent.filter t.contains
      with hprevious
    -- The children of the three messages are derived, and those of all others are right already.
    have hlinked : ∀ x, LinkedAt (relinkOption (relinkOption (relink attached m.id) previous)
        (parent.filter t.contains)) x := by
      intro x
      refine linkedAt_relinkOption (or_iff_not_imp_left.mpr fun hparent => ?_)
      refine linkedAt_relinkOption (or_iff_not_imp_left.mpr fun hold => ?_)
      refine linkedAt_relink (or_iff_not_imp_left.mpr fun hid => ?_)
      refine linkedAt_insert (m := t.hung parent m) (h.children_eq x) hid (fun heq => ?_) hparent
      refine hold (Option.filter_eq_some_iff.mpr ⟨heq, ?_⟩)
      simpa using Ne.symm hparent
    have hall := relinkAll_eq_self hlinked
    rw [relinkAll_relinkOption, relinkAll_relinkOption, relinkAll_relink] at hall
    exact hall.symm

/-- What is attached to a linked tree, if it is not refused. -/
lemma messages_insert (h : Linked t.messages) {parent : Option String}
    (hinsert : t.insert parent m = .ok t') :
    t' = { t with messages := relinkAll (t.messages.insert m.id (t.hung parent m)) } := by
  rcases insert_cases h parent m with ⟨p, -, -, herror⟩ | ⟨-, hok⟩
  · rw [herror] at hinsert
    cases hinsert
  · rw [hok] at hinsert
    exact (Except.ok.inj hinsert).symm

/-- A linked tree stays linked when a message is attached. -/
lemma linked_insert (h : Linked t.messages) {parent : Option String}
    (hinsert : t.insert parent m = .ok t') : Linked t'.messages := by
  rcases insert_cases h parent m with ⟨p, -, -, herror⟩ | ⟨hfree, hok⟩
  · rw [herror] at hinsert
    cases hinsert
  · rw [hok] at hinsert
    obtain rfl := Except.ok.inj hinsert
    exact linked_relinkAll (IdMap.keyed_insert h.keyed (t.hung parent m))
      (not_circular_insert h.acyclic hfree)

/-- Attaching a message leaves the selection as it is. -/
lemma current_insert {parent : Option String} (hinsert : t.insert parent m = .ok t') :
    t'.current = t.current := by
  unfold insert at hinsert
  dsimp only at hinsert
  split at hinsert
  · cases hinsert
  · rw [← Except.ok.inj hinsert]

/-! ### Taking out -/

/-- What is found level by level below some ids are the messages that stand so many levels below one of
them. -/
lemma mem_levels_iff (h : Linked t.messages) {count : Nat} {ids : List String} :
    m ∈ t.levels count ids ↔ t.get? m.id = some m ∧
      ∃ k < count, ∃ x ∈ ids, x ∈ t.messages ∧ climb (parentIn t.messages) k m.id = some x := by
  induction count generalizing ids with
  | zero => simp [levels]
  | succ count ih =>
    rw [levels, List.mem_append, ih]
    constructor
    · rintro (hfound | ⟨hm, k, hk, child, hchild, -, hup⟩)
      · obtain ⟨x, hx, hm⟩ := List.mem_filterMap.mp hfound
        obtain rfl : m.id = x := h.keyed x m hm
        exact ⟨hm, 0, Nat.succ_pos _, m.id, hx, mem_iff_exists_getElem?.mpr ⟨m, hm⟩, rfl⟩
      · obtain ⟨z, hz, hmem⟩ := List.mem_flatMap.mp hchild
        obtain ⟨x, hx, hzx⟩ := List.mem_filterMap.mp hz
        rw [h.children_eq x z hzx, mem_childrenIn_iff h.keyed] at hmem
        refine ⟨hm, k + 1, Nat.succ_lt_succ hk, x, hx, mem_iff_exists_getElem?.mpr ⟨z, hzx⟩, ?_⟩
        rw [climb_add, hup, Option.bind_some, climb_one, hmem]
    · rintro ⟨hm, k, hk, x, hx, hmem, hup⟩
      cases k with
      | zero =>
        obtain rfl := Option.some.inj hup
        exact Or.inl (List.mem_filterMap.mpr ⟨m.id, hx, hm⟩)
      | succ k =>
        rw [climb_add, Option.bind_eq_some_iff] at hup
        obtain ⟨child, hup, hp⟩ := hup
        rw [climb_one] at hp
        obtain ⟨z, hz⟩ := mem_iff_exists_getElem?.mp hmem
        refine Or.inr ⟨hm, k, Nat.lt_of_succ_lt_succ hk, child, List.mem_flatMap.mpr ⟨z, ?_, ?_⟩, ?_,
          hup⟩
        · exact List.mem_filterMap.mpr ⟨x, hx, hz⟩
        · rw [h.children_eq x z hz, mem_childrenIn_iff h.keyed, hp]
        · exact mem_of_parentIn_eq hp

/-- The subtree of a message consists of what stands within it. -/
lemma mem_subtree_iff (h : Linked t.messages) (hid : id ∈ t.messages) :
    m ∈ t.subtree id ↔ t.get? m.id = some m ∧ isWithin t.messages m.id id := by
  rw [subtree, mem_levels_iff h, isWithin_iff]
  refine and_congr_right fun _ => ⟨?_, ?_⟩
  · rintro ⟨k, -, x, hx, -, hup⟩
    obtain rfl := List.mem_singleton.mp hx
    exact ⟨k, hup⟩
  · rintro ⟨k, hup⟩
    obtain ⟨n, hn, -, hlt⟩ := exists_climb_le_size hup
    exact ⟨n, hlt hid, id, List.mem_singleton_self id, hid, hn⟩

/-- The ids of a subtree are those that stand within its top. -/
lemma mem_map_subtree_iff (h : Linked t.messages) (hid : id ∈ t.messages) {x : String}
    (hm : t.get? x = some m) : x ∈ (t.subtree id).map Message.id ↔ isWithin t.messages x id := by
  rw [List.mem_map]
  constructor
  · rintro ⟨m', hm', rfl⟩
    exact ((mem_subtree_iff h hid).mp hm').2
  · intro hwithin
    obtain rfl := h.keyed x m hm
    exact ⟨m, (mem_subtree_iff h hid).mpr ⟨hm, hwithin⟩, rfl⟩

/-- What is left after some ids are taken out. -/
lemma getElem?_foldl_erase (ids : List String) (ms : IdMap Message) (x : String) :
    (ids.foldl Std.ExtTreeMap.erase ms)[x]? = if x ∈ ids then none else ms[x]? := by
  induction ids generalizing ms with
  | nil => rfl
  | cons first rest ih =>
    rw [List.foldl_cons, ih, Std.ExtTreeMap.getElem?_erase]
    simp only [Std.compare_eq_iff_eq, List.mem_cons]
    by_cases hrest : x ∈ rest
    · simp [hrest]
    · by_cases hfirst : first = x
      · simp [hfirst]
      · simp [hrest, hfirst, Ne.symm hfirst]

/-- The messages without those that stand within an id. -/
def without (ms : IdMap Message) (id : String) : IdMap Message :=
  ms.filter fun x _ => !isWithin ms x id

/-- All that is within the message is left out, and nothing else. -/
lemma getElem?_without (ms : IdMap Message) (id x : String) :
    (without ms id)[x]? = if isWithin ms x id then none else ms[x]? := by
  rw [without, Std.ExtTreeMap.getElem?_filter']
  cases ms[x]? with
  | none => simp
  | some m => by_cases hx : isWithin ms x id = true <;> simp [hx]

/-- A message that is left was there and does not stand within the id. -/
lemma getElem?_of_without {x : String} (hm : (without ms id)[x]? = some m) :
    ms[x]? = some m ∧ ¬ isWithin ms x id := by
  rw [getElem?_without] at hm
  split at hm
  · cases hm
  next hx => exact ⟨hm, hx⟩

/-- What is left is under its own ids. -/
lemma keyed_without (h : IdMap.Keyed Message.id ms) (id : String) : IdMap.Keyed Message.id (without ms id) :=
  fun x m hm => h x m (getElem?_of_without hm).1

/-- Taking out a subtree by its ids takes out what stands within its top. -/
lemma foldl_erase_subtree (h : Linked t.messages) (hid : id ∈ t.messages) :
    ((t.subtree id).map Message.id).foldl Std.ExtTreeMap.erase t.messages =
      without t.messages id := by
  refine Std.ExtTreeMap.ext_getElem? fun {x} => ?_
  rw [getElem?_foldl_erase, getElem?_without]
  cases hx : t.messages[x]? with
  | none => simp
  | some m => simp only [mem_map_subtree_iff h hid hx]

/-- Taking messages out takes links away and adds none. -/
lemma parentIn_of_without {x parent : String} (h : parentIn (without ms id) x = some parent) :
    parentIn ms x = some parent ∧ ¬ isWithin ms x id := by
  rw [parentIn, getElem?_without] at h
  split at h
  · cases h
  next hx => exact ⟨h, hx⟩

/-- A message that stands within an id is the id itself if its parent does not stand within it. -/
lemma eq_of_isWithin_child {child parent : String} (hlink : parentIn ms child = some parent)
    (hchild : isWithin ms child id) (hparent : ¬ isWithin ms parent id) : child = id := by
  obtain ⟨count, hup⟩ := isWithin_iff.mp hchild
  cases count with
  | zero => exact Option.some.inj hup
  | succ count =>
    rw [climb_succ, hlink, Option.bind_some] at hup
    exact absurd (isWithin_iff.mpr ⟨count, hup⟩) hparent

/-- Taking out what stands within an id changes the children of no message that is left but the parent of
the id. -/
lemma linkedAt_without {x : String} (h : LinkedAt ms x) (hparent : parentIn ms id ≠ some x) :
    LinkedAt (without ms id) x := by
  intro m hm
  obtain ⟨hold, hx⟩ := getElem?_of_without hm
  rw [h m hold]
  refine childrenIn_congr fun child r => ?_
  rw [getElem?_without]
  split
  next hchild =>
    refine iff_of_false ?_ (by simp)
    rintro ⟨m', hm', hp, -⟩
    have hlink : parentIn ms child = some x := by rw [parentIn, hm', Option.bind_some, hp]
    obtain rfl := eq_of_isWithin_child hlink hchild hx
    exact hparent hlink
  next => exact Iff.rfl

/-- A message that is not there cannot be taken out. -/
lemma remove_of_not_mem (hid : id ∉ t.messages) : t.remove id = t := by
  have hget : t.get? id = none := Std.ExtTreeMap.getElem?_eq_none hid
  rw [remove, hget]

/-- In a linked tree, taking out a message comes to taking out what stands within it and deriving the
children of all messages that are left. -/
lemma remove_of_mem (h : Linked t.messages) (hid : id ∈ t.messages) :
    t.remove id = repair { t with messages := relinkAll (without t.messages id) } := by
  obtain ⟨m, hm⟩ := mem_iff_exists_getElem?.mp hid
  have hget : t.get? id = some m := hm
  have hlinked : ∀ x, LinkedAt (relinkOption (without t.messages id) m.parent) x := by
    intro x
    refine linkedAt_relinkOption (or_iff_not_imp_left.mpr fun hparent => ?_)
    refine linkedAt_without (h.children_eq x) fun hp => hparent ?_
    rwa [parentIn, hm, Option.bind_some] at hp
  have hall := relinkAll_eq_self hlinked
  rw [relinkAll_relinkOption] at hall
  rw [remove, hget]
  simp only [foldl_erase_subtree h hid, hall]

/-- Relinked, what is left is in order. -/
lemma linked_without (h : Linked ms) (id : String) : Linked (relinkAll (without ms id)) := by
  refine linked_relinkAll (keyed_without h.keyed id) ?_
  intro x hx
  exact h.acyclic x (hx.mono fun _ _ hp => (parentIn_of_without hp).1)

/-- A linked tree stays linked when a message is taken out. -/
lemma linked_remove (h : Linked t.messages) (id : String) : Linked (t.remove id).messages := by
  by_cases hid : id ∈ t.messages
  · rw [remove_of_mem h hid]
    exact linked_without h id
  · rwa [remove_of_not_mem hid]

/-! ### Selecting -/

/-- Going down from a message that is there leads to one that is there. -/
lemma mem_descend (hid : id ∈ t.messages) (count : Nat) : t.descend count id ∈ t.messages := by
  induction count generalizing id with
  | zero => exact hid
  | succ count ih =>
    rw [descend]
    split
    next child hchild => exact ih (Option.filter_eq_some_iff.mp hchild).2
    next => exact hid

/-- Selecting a branch of a linked tree leaves it well-formed. -/
lemma wellFormed_select (h : Linked t.messages) (id : String) : (t.select id).WellFormed := by
  rw [select]
  split
  next hid =>
    refine ⟨h, fun current hcurrent => ?_, fun hnone => by cases hnone⟩
    obtain rfl := Option.some.inj hcurrent
    exact mem_descend hid t.size
  next => exact wellFormed_repair h

end DialogueSync.Tree
