import DialogueSync.Proofs.Tree.Navigation
import DialogueSync.Proofs.Tree.Reachable
import Mathlib.Data.List.Chain

/-!
# Branches

The way down to a message is the way down to its parent with the message behind it (`path_eq`), so it starts at a root
and goes from parents to children (`LeadsDown`). Selecting the branch through a message goes on from there to the last
child again and again; the way to what is reached is therefore the way to the message with these children behind it
(`exists_descend`). Both walks are bounded by the size of the tree, and no way in a tree that comes about is longer.
-/

namespace DialogueSync.Tree

variable {t : Tree} {id : String} {m : Message}

/-! ### The way down to a message -/

/-- The way down to a root is the root alone. -/
lemma path_of_root (h : Linked t.messages) (hm : t.get? id = some m)
    (hroot : ∀ parent, m.parent = some parent → ¬ t.contains parent) : t.path id = [m] := by
  rw [path_eq h hm]
  cases hp : m.parent with
  | none => rfl
  | some parent =>
    rw [Option.elim_some, path_eq_nil_iff.mpr (hroot parent hp)]
    rfl

/-- The way leads from a root of the tree down to a message. -/
structure LeadsDown (t : Tree) (way : List Message) (id : String) : Prop where
  /-- All on the way are messages of the tree. -/
  get?_eq : ∀ m ∈ way, t.get? m.id = some m
  /-- The way starts at a message whose parent is not in the tree. -/
  starts : ∃ root rest, way = root :: rest ∧ ∀ parent, root.parent = some parent → ¬ t.contains parent
  /-- The way ends at the message. -/
  ends : ∃ above m, way = above ++ [m] ∧ m.id = id
  /-- No id comes twice. -/
  nodup : (way.map Message.id).Nodup
  /-- The parent of each message is the one before it. -/
  isChain : way.IsChain fun a b => b.parent = some a.id

/-- A root is the way down to itself. -/
lemma leadsDown_singleton (h : IdMap.Keyed Message.id t.messages) (hm : t.get? id = some m)
    (hroot : ∀ parent, m.parent = some parent → ¬ t.contains parent) : LeadsDown t [m] id where
  get?_eq n hn := by
    rw [List.mem_singleton.mp hn, h id m hm]
    exact hm
  starts := ⟨m, [], rfl, hroot⟩
  ends := ⟨[], m, rfl, h id m hm⟩
  nodup := List.nodup_singleton m.id
  isChain := List.isChain_singleton m

/-- A way down is made longer by a child that it does not come past. -/
lemma LeadsDown.concat {way : List Message} {parent : String} (hway : LeadsDown t way parent)
    (h : IdMap.Keyed Message.id t.messages) (hm : t.get? id = some m) (hparent : m.parent = some parent)
    (hnew : ∀ a ∈ way, a.id ≠ id) : LeadsDown t (way ++ [m]) id := by
  have hid : m.id = id := h id m hm
  constructor
  case get?_eq =>
    intro n hn
    rcases List.mem_append.mp hn with hn | hn
    · exact hway.get?_eq n hn
    · rw [List.mem_singleton.mp hn, hid]
      exact hm
  case starts =>
    obtain ⟨root, rest, heq, hroot⟩ := hway.starts
    exact ⟨root, rest ++ [m], by rw [heq, List.cons_append], hroot⟩
  case ends => exact ⟨way, m, rfl, hid⟩
  case nodup =>
    rw [List.map_append, List.nodup_append]
    refine ⟨hway.nodup, List.nodup_singleton m.id, ?_⟩
    intro a ha b hb heq
    obtain ⟨n, hn, rfl⟩ := List.mem_map.mp ha
    rw [List.map_singleton, List.mem_singleton] at hb
    exact hnew n hn ((heq.trans hb).trans hid)
  case isChain =>
    refine hway.isChain.append (List.isChain_singleton m) ?_
    intro a ha b hb
    obtain ⟨above, last, heq, hlast⟩ := hway.ends
    rw [heq, List.getLast?_append_of_ne_nil _ (List.cons_ne_nil last []), List.getLast?_singleton] at ha
    obtain rfl := Option.some.inj ha
    obtain rfl := Option.some.inj hb
    rw [hparent, hlast]

/-- In a linked tree the way down to a message starts at a root and goes from parents to children. -/
lemma leadsDown_path (h : Linked t.messages) (hm : t.get? id = some m) : LeadsDown t (t.path id) id := by
  -- Induction on the number of links after which the way up has ended.
  have hup := climb_size_succ h.acyclic id
  generalize t.messages.size + 1 = count at hup
  induction count generalizing id m with
  | zero => cases hup
  | succ count ih =>
    by_cases hroot : ∀ parent, m.parent = some parent → ¬ t.contains parent
    · rw [path_of_root h hm hroot]
      exact leadsDown_singleton h.keyed hm hroot
    · simp only [not_forall, not_not] at hroot
      obtain ⟨parent, hp, hin⟩ := hroot
      obtain ⟨n, hn⟩ := contains_iff_exists_get?.mp hin
      have hlink : parentIn t.messages id = some parent := (parentIn_of_get? hm).trans hp
      rw [climb_succ, hlink, Option.bind_some] at hup
      rw [path_eq h hm, hp, Option.elim_some]
      refine (ih hn hup).concat h.keyed hm hp ?_
      -- What is met on the way to the parent does not stand below it.
      rintro a ha rfl
      obtain ⟨-, -, hwithin⟩ := (exists_mem_path_iff h.keyed).mp ⟨a, ha, rfl⟩
      obtain ⟨k, hk⟩ := isWithin_iff.mp hwithin
      refine h.acyclic a.id ⟨k, ?_⟩
      rw [climb_succ, hlink, Option.bind_some, hk]

/-! ### Going down to a leaf -/

/-- Among the children of a message another one stands last in sibling order. -/
structure LastChild (t : Tree) (m child : Message) : Prop where
  /-- It is a child of the message. -/
  mem_children : child.id ∈ m.children
  /-- Every other child stands before it. -/
  before : ∀ other ∈ m.children, other ≠ child.id → t.Before other child.id

/-- The last one in the list of children is the last one in sibling order. -/
lemma lastChild_of_getLast? (h : Linked t.messages) {child : Message} (hm : t.get? id = some m)
    (hlast : m.children.getLast? = some child.id) : t.LastChild m child := by
  obtain ⟨init, hinit⟩ := List.getLast?_eq_some_iff.mp hlast
  have hpairs := h.pairwise_children hm
  rw [hinit] at hpairs
  refine ⟨List.mem_of_getLast? hlast, ?_⟩
  intro other hother hne
  rw [hinit, List.mem_append, List.mem_singleton] at hother
  exact (List.pairwise_append.mp hpairs).2.2 other (hother.resolve_right hne) child.id (List.mem_singleton_self _)

/-- Going down from a message makes the way to it longer by last children, until there is no child or as often as
wanted. -/
lemma exists_descend (h : Linked t.messages) (hm : t.get? id = some m) (count : Nat) :
    ∃ below last, t.descend count id = last.id ∧ t.get? last.id = some last ∧
      t.path last.id = t.path id ++ below ∧ (m :: below).IsChain t.LastChild ∧
      (last.children = [] ∨ below.length = count) := by
  induction count generalizing id m with
  | zero =>
    obtain rfl : m.id = id := h.keyed id m hm
    exact ⟨[], m, rfl, hm, (List.append_nil _).symm, List.isChain_singleton m, Or.inr rfl⟩
  | succ count ih =>
    obtain rfl : m.id = id := h.keyed id m hm
    rw [descend, hm, Option.bind_some]
    cases hlast : m.children.getLast? with
    | none =>
      exact ⟨[], m, rfl, hm, (List.append_nil _).symm, List.isChain_singleton m,
        Or.inl (List.getLast?_eq_none_iff.mp hlast)⟩
    | some next =>
      obtain ⟨child, hchild, hparent⟩ := (h.mem_children_iff hm).mp (List.mem_of_getLast? hlast)
      have hin : t.contains next := contains_iff_exists_get?.mpr ⟨child, hchild⟩
      obtain rfl : child.id = next := h.keyed next child hchild
      rw [Option.filter_some, if_pos hin]
      obtain ⟨below, last, hdescend, hget, hpath, hchain, hend⟩ := ih hchild
      refine ⟨child :: below, last, hdescend, hget, ?_, ?_, ?_⟩
      · rw [hpath, path_eq h hchild, hparent, Option.elim_some, List.append_assoc, List.singleton_append]
      · exact hchain.cons_cons (lastChild_of_getLast? h hm hlast)
      · exact hend.imp_right fun hlength => congrArg (· + 1) hlength

/-! ### Selecting -/

/-- The branch through a message ends at a leaf. -/
structure EndsBranch (t : Tree) (id : String) (leaf : Message) : Prop where
  /-- The leaf is in the tree. -/
  get?_eq : t.get? leaf.id = some leaf
  /-- It has no children. -/
  children_eq : leaf.children = []
  /-- The way to the leaf leads through the message, and from there always to the last child. -/
  exists_path_eq : ∃ above m below, t.path leaf.id = above ++ m :: below ∧ m.id = id ∧
    (m :: below).IsChain t.LastChild
  /-- The way leads from a root down to the leaf. -/
  leadsDown : LeadsDown t (t.path leaf.id) leaf.id

/-- Going down from a message of a linked tree as often as there are messages leads to the end of its branch. -/
lemma exists_endsBranch (h : Linked t.messages) (hm : t.get? id = some m) :
    ∃ leaf, t.EndsBranch id leaf ∧ t.descend t.size id = leaf.id := by
  obtain ⟨below, leaf, hdescend, hget, hpath, hchain, hend⟩ := exists_descend h hm t.size
  rw [path_eq h hm, List.append_assoc, List.singleton_append] at hpath
  have hlength : (t.path leaf.id).length ≤ t.size := by
    rw [path, List.length_reverse]
    exact (List.length_filterMap_le _ _).trans (length_lineage_le _ _ _)
  have hleaf : leaf.children = [] := by
    refine hend.resolve_right ?_
    intro hsize
    rw [hpath, List.length_append, List.length_cons, hsize] at hlength
    omega
  refine ⟨leaf, ⟨hget, hleaf, ⟨_, m, below, hpath, h.keyed id m hm, hchain⟩, ?_⟩, hdescend⟩
  exact leadsDown_path h hget

/-- Selecting a message of a tree that comes about selects the end of its branch and changes nothing else; for an id
that is not in the tree the selection is only chosen anew. -/
theorem selects_branch_or_repairs (h : Reachable t) (id : String) :
    (t.contains id ∧ ∃ leaf, t.EndsBranch id leaf ∧ t.select id = { t with current := some leaf.id }) ∨
      ¬ t.contains id ∧ t.select id = { t with current := t.resolve t.current } := by
  rw [select]
  split
  next hid =>
    obtain ⟨m, hm⟩ := contains_iff_exists_get?.mp hid
    obtain ⟨leaf, hleaf, hdescend⟩ := exists_endsBranch h.linked hm
    exact Or.inl ⟨hid, leaf, hleaf, by rw [hdescend]⟩
  next hid => exact Or.inr ⟨hid, rfl⟩

/-- A message that waits for its parent, with two children of which the older one has a place behind the other and is
followed up twice. -/
def staggered : Tree :=
  ofMessages
    [{ Message.ask "waiting" "a" 1 with parent := some "x" },
      { Message.ask "older" "b" 2 with parent := some "a", position := some 0 },
      { Message.ask "newer" "c" 9 with parent := some "a" },
      { Message.ask "follow-up" "d" 4 with parent := some "b" },
      { Message.ask "other follow-up" "e" 3 with parent := some "b" }] (some "c")

/-- The branch through the waiting message goes to the child with the place and from there to its newer follow-up; the
parent that it waits for cannot be selected. -/
theorem selects_and_repairs_staggered :
    (∃ leaf, staggered.EndsBranch "a" leaf ∧ staggered.select "a" = { staggered with current := some leaf.id }) ∧
      (staggered.select "a").current = some "d" ∧
      (staggered.path "d").map Message.id = ["a", "b", "d"] ∧
      staggered.select "x" = { staggered with current := staggered.resolve staggered.current } := by
  have hreachable : Reachable staggered := Reachable.ofMessages _ _
  refine ⟨?_, by decide +kernel, by decide +kernel, ?_⟩
  · rcases selects_branch_or_repairs hreachable "a" with ⟨-, hbranch⟩ | ⟨hnot, -⟩
    · exact hbranch
    · exact absurd (by decide +kernel) hnot
  · rcases selects_branch_or_repairs hreachable "x" with ⟨hin, -⟩ | ⟨-, hrepairs⟩
    · exact absurd hin (by decide +kernel)
    · exact hrepairs

end DialogueSync.Tree
