import DialogueSync.Proofs.Tree.Grounded
import DialogueSync.Proofs.Tree.Reachable

/-!
# Attaching a message

A message is refused exactly if the parent is the message itself or the way up from the parent leads to it, be it to
an id that is not in the tree (`Closes`). Otherwise it is attached, and only its own link changes: what stood within
it stands within it still, so it moves with everything below it, and the messages that waited for it become its
children (`Attaches`).
-/

namespace DialogueSync.Tree

variable {link link' : String → Option String} {t t' : Tree} {parent : Option String} {m : Message}

/-! ### Links that are changed at one id -/

/-- If only the link of one id is changed, the ids below it stay the same. -/
lemma exists_climb_iff_of_link {a : String} (hlink : ∀ x, x ≠ a → link' x = link x) (x : String) :
    (∃ count, climb link' count x = some a) ↔ ∃ count, climb link count x = some a := by
  constructor
  · rintro ⟨count, hup⟩
    rcases climb_or_climb hlink hup with hold | ⟨i, -, hold, -⟩
    · exact ⟨count, hold⟩
    · exact ⟨i, hold⟩
  · rintro ⟨count, hup⟩
    rcases climb_or_climb (fun y hy => (hlink y hy).symm) hup with hnew | ⟨i, -, hnew, -⟩
    · exact ⟨count, hnew⟩
    · exact ⟨i, hnew⟩

/-! ### Refusing -/

/-- The parent is in the tree, and it is the message itself or the way up from it leads to the message. -/
def Closes (t : Tree) (parent : Option String) (id : String) : Prop :=
  ∃ p, parent = some p ∧ t.contains p ∧
    (p = id ∨ ∃ count, climb (parentIn t.messages) (count + 1) p = some id)

/-- A parent closes a circle if it is in the tree and stands within the message. -/
lemma closes_iff {id : String} :
    Closes t parent id ↔ ∃ p, parent.filter t.contains = some p ∧ isWithin t.messages p id := by
  have hup : ∀ p, (p = id ∨ ∃ count, climb (parentIn t.messages) (count + 1) p = some id) ↔
      isWithin t.messages p id := by
    intro p
    rw [isWithin_iff]
    constructor
    · rintro (rfl | ⟨count, hup⟩)
      · exact ⟨0, rfl⟩
      · exact ⟨count + 1, hup⟩
    · rintro ⟨count, hup⟩
      cases count with
      | zero => exact Or.inl (Option.some.inj hup)
      | succ count => exact Or.inr ⟨count, hup⟩
  rw [Closes]
  refine exists_congr ?_
  intro p
  rw [hup, Option.filter_eq_some_iff, and_assoc]

/-! ### Attaching -/

/-- A message is attached to a tree under a parent. -/
structure Attaches (t : Tree) (parent : Option String) (m : Message) (t' : Tree) : Prop where
  /-- The message is there, and no other one has come or gone. -/
  contains_iff : ∀ x, t'.contains x ↔ x = m.id ∨ t.contains x
  /-- The message stands under the parent if that is in the tree, and is a root otherwise. -/
  get?_self : ∃ children,
    t'.get? m.id = some { m with parent := parent.filter t.contains, children := children }
  /-- Of another message nothing changes but the list of children. -/
  get?_of_ne : ∀ x old, x ≠ m.id → t.get? x = some old →
    ∃ children, t'.get? x = some { old with children := children }
  /-- What stood within the message stands within it still, and nothing else does. -/
  isWithin_eq : ∀ x, isWithin t'.messages x m.id = isWithin t.messages x m.id
  /-- The messages that named it as their parent, whether it was there or not, are its children. -/
  adopts : ∀ x old, t.get? x = some old → old.parent = some m.id →
    ∃ m', t'.get? m.id = some m' ∧ x ∈ m'.children
  /-- The selection stays as it is. -/
  current_eq : t'.current = t.current
  /-- The children of a message are exactly the messages that name it as their parent. -/
  mem_children_iff : ∀ x n, t'.get? x = some n →
    ∀ child, child ∈ n.children ↔ ∃ c, t'.get? child = some c ∧ c.parent = some x
  /-- The children stand in strictly increasing sibling order. -/
  pairwise_children : ∀ x n, t'.get? x = some n → n.children.Pairwise t'.Before

/-- What is attached to a linked tree without being refused is attached in this way. -/
lemma attaches_of_insert (h : Linked t.messages) (hinsert : t.insert parent m = .ok t') :
    Attaches t parent m t' := by
  have hlinked := linked_insert h hinsert
  have hget := get?_insert h hinsert
  have hmem : ∀ x, t'.contains x ↔ x = m.id ∨ t.contains x := fun x => mem_insert_iff h hinsert
  have hlink : ∀ x, x ≠ m.id → parentIn t'.messages x = parentIn t.messages x := by
    intro x hx
    rw [parentIn_of_insert h hinsert, if_neg hx]
  constructor
  case contains_iff => exact hmem
  case get?_self =>
    refine ⟨childrenIn (t.messages.insert m.id (t.hung parent m)) m.id, ?_⟩
    rw [hget, if_pos rfl]
    rfl
  case get?_of_ne =>
    intro x old hx hold
    refine ⟨childrenIn (t.messages.insert m.id (t.hung parent m)) x, ?_⟩
    rw [hget, if_neg hx, hold]
    rfl
  case isWithin_eq =>
    intro x
    rw [Bool.eq_iff_iff, isWithin_iff, isWithin_iff]
    exact exists_climb_iff_of_link hlink x
  case adopts =>
    intro x old hold hparent
    have hx : x ≠ m.id := by
      rintro rfl
      refine h.acyclic m.id ⟨0, ?_⟩
      rw [climb_one, parentIn_of_get? hold, hparent]
    obtain ⟨m', hm'⟩ := contains_iff_exists_get?.mp ((hmem m.id).mpr (Or.inl rfl))
    refine ⟨m', hm', ?_⟩
    rw [hlinked.children_eq m.id m' hm', mem_childrenIn_iff hlinked.keyed, hlink x hx, parentIn_of_get? hold,
      hparent]
  case current_eq => exact current_insert hinsert
  case mem_children_iff => exact fun x n hn child => hlinked.mem_children_iff hn
  case pairwise_children => exact fun x n hn => hlinked.pairwise_children hn

/-- Attaching a message to a tree that comes about is refused exactly if it would close a circle, and then changes
nothing; otherwise it attaches this one message. -/
theorem refuses_or_attaches (h : Reachable t) (parent : Option String) (m : Message) :
    (Closes t parent m.id ∧ (∃ p, parent = some p ∧ t.insert parent m = .error (.wouldCycle m.id p)) ∧
        t.edit (.insert parent m) = t) ∨
      ¬ Closes t parent m.id ∧ ∃ t', t.insert parent m = .ok t' ∧ t.edit (.insert parent m) = t' ∧
        Attaches t parent m t' := by
  rw [closes_iff]
  rcases insert_cases h.linked parent m with ⟨p, hp, hwithin, herror⟩ | ⟨hfree, hok⟩
  · have hp : parent.filter t.contains = some p := hp
    refine Or.inl ⟨⟨p, hp, hwithin⟩, ⟨p, (Option.filter_eq_some_iff.mp hp).1, herror⟩, ?_⟩
    rw [edit, herror]
    rfl
  · refine Or.inr ⟨?_, _, hok, ?_, attaches_of_insert h.linked hok⟩
    · rintro ⟨p, hp, hwithin⟩
      exact hfree p hp hwithin
    · rw [edit, hok]
      rfl

/-- A message cannot be attached under the one that waits for it, but it can be attached as a root. -/
theorem refuses_and_attaches_awaited :
    circleAndWaiting.insert (some "d") (Message.ask "awaited" "c" 4) = .error (.wouldCycle "c" "d") ∧
      ∃ t', circleAndWaiting.insert none (Message.ask "awaited" "c" 4) = .ok t' ∧
        Attaches circleAndWaiting none (Message.ask "awaited" "c" 4) t' := by
  have hreachable : Reachable circleAndWaiting := Reachable.ofMessages _ _
  have hcloses : Closes circleAndWaiting (some "d") "c" :=
    ⟨"d", rfl, by decide +kernel, Or.inr ⟨0, by decide +kernel⟩⟩
  constructor
  · rcases refuses_or_attaches hreachable (some "d") (Message.ask "awaited" "c" 4) with
      ⟨-, ⟨p, hp, herror⟩, -⟩ | ⟨hfree, -⟩
    · obtain rfl := Option.some.inj hp
      exact herror
    · exact absurd hcloses hfree
  · rcases refuses_or_attaches hreachable none (Message.ask "awaited" "c" 4) with
      ⟨⟨p, hp, -⟩, -⟩ | ⟨-, t', hok, -, hattaches⟩
    · cases hp
    · exact ⟨t', hok, hattaches⟩

end DialogueSync.Tree
