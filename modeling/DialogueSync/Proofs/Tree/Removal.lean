import DialogueSync.Proofs.Tree.Navigation
import DialogueSync.Proofs.Tree.Siblings

/-!
# Taking out a subtree

Going down from a message level by level finds every message below it once, and none of them before a message that
it stands within (`pairwise_levels`); for the ids of one level are `Apart`, and so are those of the next one. What is
left when the messages found are taken out keeps its children, except that the parent of the topmost one loses it
(`childrenIn_without`). `takesOut_remove` says all that taking out does to a tree that comes about.
-/

namespace DialogueSync.Tree

variable {link : String → Option String} {t : Tree} {id x : String} {m : Message}

/-! ### Going down -/

/-- If a way up leads from one id to another, a way of that length leads from the parent of the one to the parent of the
other. -/
lemma climb_parents {count : Nat} {x y p q : String} (hup : climb link count x = some y) (hx : link x = some p)
    (hy : link y = some q) : climb link count p = some q := by
  have hround : climb link (count + 1) x = some q := by
    rw [climb_add, hup, Option.bind_some, climb_one, hy]
  rwa [climb_succ, hx, Option.bind_some] at hround

/-- Different ids of which none stands below another one. -/
structure Apart (link : String → Option String) (ids : List String) : Prop where
  /-- The ids are different. -/
  nodup : ids.Nodup
  /-- A way up from one of them to another one is the way to itself. -/
  eq_zero_of_climb : ∀ x ∈ ids, ∀ y ∈ ids, ∀ count, climb link count x = some y → count = 0

/-- Where there is no circle, a single id is apart. -/
lemma apart_singleton (hacyclic : ∀ id, ¬ Circular link id) (id : String) : Apart link [id] := by
  refine ⟨List.nodup_singleton id, ?_⟩
  intro x hx y hy count hup
  obtain rfl := List.mem_singleton.mp hx
  obtain rfl := List.mem_singleton.mp hy
  cases count with
  | zero => rfl
  | succ count => exact absurd ⟨count, hup⟩ (hacyclic y)

/-- The children of what is found under some ids name one of the ids as their parent. -/
lemma mem_nextLevel {ids : List String} (h : Linked t.messages) {child : String}
    (hchild : child ∈ (ids.filterMap t.get?).flatMap Message.children) :
    ∃ z ∈ ids, parentIn t.messages child = some z := by
  obtain ⟨m, hm, hmem⟩ := List.mem_flatMap.mp hchild
  obtain ⟨z, hz, hget⟩ := List.mem_filterMap.mp hm
  refine ⟨z, hz, ?_⟩
  rwa [h.children_eq z m hget, mem_childrenIn_iff h.keyed] at hmem

/-- If some ids are apart, so are the children of what is found under them. -/
lemma apart_nextLevel {ids : List String} (h : Linked t.messages) (hapart : Apart (parentIn t.messages) ids) :
    Apart (parentIn t.messages) ((ids.filterMap t.get?).flatMap Message.children) := by
  constructor
  · refine List.nodup_flatMap.mpr ⟨?_, ?_⟩
    · intro m hm
      obtain ⟨z, -, hget⟩ := List.mem_filterMap.mp hm
      exact nodup_of_pairwise_before (h.pairwise_children hget)
    · refine List.Pairwise.filterMap t.get? ?_ hapart.nodup
      intro z z' hne m hm m' hm' child hchild hchild'
      rw [h.children_eq z m hm, mem_childrenIn_iff h.keyed] at hchild
      rw [h.children_eq z' m' hm', mem_childrenIn_iff h.keyed, hchild] at hchild'
      exact hne (Option.some.inj hchild')
  · intro x hx y hy count hup
    obtain ⟨p, hp, hxp⟩ := mem_nextLevel h hx
    obtain ⟨q, hq, hyq⟩ := mem_nextLevel h hy
    exact hapart.eq_zero_of_climb p hp q hq count (climb_parents hup hxp hyq)

/-- Level by level, every message comes once, and no message comes before one that it stands within. -/
lemma pairwise_levels {ids : List String} (h : Linked t.messages) (hapart : Apart (parentIn t.messages) ids)
    (count : Nat) :
    (t.levels count ids).Pairwise fun a b => ∀ n, climb (parentIn t.messages) n a.id ≠ some b.id := by
  have hfound : ∀ {ids : List String} {m : Message}, m ∈ ids.filterMap t.get? → m.id ∈ ids := by
    intro ids m hm
    obtain ⟨z, hz, hget⟩ := List.mem_filterMap.mp hm
    rwa [h.keyed z m hget]
  induction count generalizing ids with
  | zero => exact List.Pairwise.nil
  | succ count ih =>
    rw [levels]
    refine List.pairwise_append.mpr ⟨?_, ih (apart_nextLevel h hapart), ?_⟩
    · have hne : (ids.filterMap t.get?).Pairwise fun a b => a.id ≠ b.id := by
        refine List.Pairwise.filterMap t.get? ?_ hapart.nodup
        intro z z' hne m hm m' hm' heq
        rw [h.keyed z m hm, h.keyed z' m' hm'] at heq
        exact hne heq
      refine hne.imp_of_mem ?_
      intro a b ha hb hne n hup
      obtain rfl := hapart.eq_zero_of_climb a.id (hfound ha) b.id (hfound hb) n hup
      exact hne (Option.some.inj hup)
    · intro a ha b hb n hup
      obtain ⟨-, k, -, child, hchild, -, hdown⟩ := (mem_levels_iff h).mp hb
      obtain ⟨z, hz, hparent⟩ := mem_nextLevel h hchild
      -- The way up from the upper message would go past the lower one to an id of its own level.
      have hround : climb (parentIn t.messages) (n + (k + 1)) a.id = some z := by
        rw [climb_add, hup, Option.bind_some, climb_add, hdown, Option.bind_some, climb_one, hparent]
      have hzero := hapart.eq_zero_of_climb a.id (hfound ha) z hz (n + (k + 1)) hround
      omega

/-- In a subtree every message comes once, and no message comes before one that it stands within. -/
lemma pairwise_subtree (h : Linked t.messages) (id : String) :
    (t.subtree id).Pairwise fun a b => ∀ n, climb (parentIn t.messages) n a.id ≠ some b.id :=
  pairwise_levels h (apart_singleton h.acyclic id) t.size

/-! ### What is left -/

/-- A message that is left keeps its children, without the topmost one of the messages that are taken out. -/
lemma childrenIn_without (h : Linked t.messages) (hx : ¬ isWithin t.messages x id) :
    childrenIn (without t.messages id) x = (childrenIn t.messages x).erase id := by
  have hkeyed : IdMap.Keyed Message.id (without t.messages id) := keyed_without h.keyed id
  have hold : (childrenIn t.messages x).Pairwise t.Before := pairwise_before_childrenIn h.keyed x
  have hnodup : (childrenIn t.messages x).Nodup := nodup_of_pairwise_before hold
  have hnew : (childrenIn (without t.messages id) x).Pairwise t.Before := by
    refine (pairwise_before_childrenIn (t := ⟨without t.messages id, none⟩) hkeyed x).imp ?_
    rintro a b ⟨m, n, hm, hn, hlt⟩
    exact ⟨m, n, (getElem?_of_without hm).1, (getElem?_of_without hn).1, hlt⟩
  refine eq_of_pairwise_before hnew (hold.sublist List.erase_sublist) ?_
  intro child
  rw [hnodup.mem_erase_iff, mem_childrenIn_iff hkeyed, mem_childrenIn_iff h.keyed]
  constructor
  · intro hp
    obtain ⟨hlink, hchild⟩ := parentIn_of_without hp
    refine ⟨?_, hlink⟩
    rintro rfl
    exact hchild (isWithin_self t.messages child)
  · rintro ⟨hne, hlink⟩
    have hchild : ¬ isWithin t.messages child id :=
      fun hwithin => hne (eq_of_isWithin_child hlink hwithin hx)
    rwa [parentIn, getElem?_without, if_neg hchild]

/-- What taking out a message of a linked tree leaves under an id. -/
lemma get?_remove (h : Linked t.messages) (hid : t.contains id) (x : String) :
    (t.remove id).get? x = if isWithin t.messages x id then none else
      (t.get? x).map fun m => { m with children := m.children.erase id } := by
  rw [remove_of_mem h hid]
  change (relinkAll (without t.messages id))[x]? = _
  rw [getElem?_relinkAll, getElem?_without]
  split
  · rfl
  next hx =>
    refine Option.map_congr ?_
    intro m hm
    rw [childrenIn_without h hx, h.children_eq x m hm]

/-- A message is taken out of a tree with everything below it. -/
structure TakesOut (t : Tree) (id : String) (out : List Message) (rest : Tree) : Prop where
  /-- Taken out are the messages whose way down leads through the id. -/
  mem_iff : ∀ m, m ∈ out ↔ t.get? m.id = some m ∧ ∃ a ∈ t.path m.id, a.id = id
  /-- No message is taken out twice. -/
  nodup : (out.map Message.id).Nodup
  /-- The parent of the topmost message stays, and every other message comes after its parent. -/
  after_parent : ∀ before m after, out = before ++ m :: after →
    if m.id = id then ∀ p ∈ out, m.parent ≠ some p.id else ∃ p ∈ before, m.parent = some p.id
  /-- The others are left, and only the parent of the topmost message loses it from its children. -/
  get?_eq : ∀ x, rest.get? x = if x ∈ out.map Message.id then none else (t.get? x).map fun m =>
    if parentIn t.messages id = some x then { m with children := m.children.erase id } else m
  /-- The parent of a message that is left is not taken out. -/
  parent_ne : ∀ x m, rest.get? x = some m → ∀ r ∈ out, m.parent ≠ some r.id
  /-- A selected message that is left stays selected. -/
  current_of_contains : ∀ x, t.current = some x → rest.contains x → rest.current = some x
  /-- If it is not left, the leaf touched last is selected, unless nothing is left. -/
  current_of_not_contains : (∀ x, t.current = some x → ¬ rest.contains x) → rest.messages ≠ ∅ →
    ∃ m, rest.LastLeaf m ∧ rest.current = some m.id
  /-- Nothing is selected only if nothing is left. -/
  current_eq_none_iff : rest.current = none ↔ rest.messages = ∅

/-- Every message of a subtree comes after its parent, but for the topmost one, whose parent is not among them. -/
lemma after_parent_subtree (h : Linked t.messages) (hid : t.contains id) {before after : List Message}
    (hsplit : t.subtree id = before ++ m :: after) :
    if m.id = id then ∀ p ∈ t.subtree id, m.parent ≠ some p.id else ∃ p ∈ before, m.parent = some p.id := by
  have hmem : m ∈ t.subtree id := hsplit ▸ List.mem_append_right before List.mem_cons_self
  obtain ⟨hget, hwithin⟩ := (mem_subtree_iff h hid).mp hmem
  have hlink : ∀ {parent}, m.parent = some parent → parentIn t.messages m.id = some parent :=
    fun hparent => (parentIn_of_get? hget).trans hparent
  split
  next htop =>
    intro p hp hparent
    obtain ⟨n, hdown⟩ := isWithin_iff.mp ((mem_subtree_iff h hid).mp hp).2
    refine h.acyclic id ⟨n, ?_⟩
    rw [climb_succ, ← htop, hlink hparent, Option.bind_some, htop, hdown]
  next hne =>
    obtain ⟨count, hup⟩ := isWithin_iff.mp hwithin
    cases count with
    | zero => exact absurd (Option.some.inj hup) hne
    | succ count =>
      rw [climb_succ, Option.bind_eq_some_iff] at hup
      obtain ⟨parent, hp, hrest⟩ := hup
      obtain ⟨p, hget'⟩ := mem_iff_exists_getElem?.mp (mem_of_climb_mem hrest hid)
      obtain rfl := h.keyed parent p hget'
      have hout : p ∈ t.subtree id := (mem_subtree_iff h hid).mpr ⟨hget', isWithin_iff.mpr ⟨count, hrest⟩⟩
      have hstep : climb (parentIn t.messages) 1 m.id = some p.id := (climb_one m.id).trans hp
      have hparent : m.parent = some p.id := (parentIn_of_get? hget).symm.trans hp
      have hpairs := pairwise_subtree h id
      rw [hsplit] at hout hpairs
      obtain ⟨hafter, -⟩ := List.pairwise_cons.mp (List.pairwise_append.mp hpairs).2.1
      rcases List.mem_append.mp hout with hbefore | hrest
      · exact ⟨p, hbefore, hparent⟩
      · rcases List.mem_cons.mp hrest with rfl | hin
        · exact absurd ⟨0, hstep⟩ (h.acyclic p.id)
        · exact absurd hstep (hafter p hin 1)

/-- After taking out, the selected message is kept or chosen anew among those that are left. -/
lemma current_remove (h : Linked t.messages) (hid : t.contains id) :
    (t.remove id).current = (t.remove id).resolve t.current := by
  rw [remove_of_mem h hid]
  rfl

/-- Taking a message out of a tree that comes about takes out exactly what stands below it, and leaves all other
messages as they are; the selection stays or falls to the leaf that was touched last. -/
theorem takesOut_remove (h : Reachable t) (hid : t.contains id) :
    TakesOut t id (t.subtree id) (t.remove id) := by
  have hlinked := h.linked
  have hget := get?_remove hlinked hid
  have hwell : (t.remove id).WellFormed := wellFormed_edit hlinked (e := .remove id) hid
  have hcurrent := current_remove hlinked hid
  have hresolve := resolve_cases hwell.toLinked t.current
  -- What is said about the selection rests on `hresolve`, and all the rest on `hget`.
  constructor
  case mem_iff =>
    intro m
    rw [mem_subtree_iff hlinked hid, exists_mem_path_iff hlinked.keyed]
    refine and_congr_right ?_
    intro hm
    exact ⟨fun hwithin => ⟨mem_iff_exists_getElem?.mpr ⟨m, hm⟩, hid, hwithin⟩, fun hpath => hpath.2.2⟩
  case nodup =>
    refine List.pairwise_map.mpr ((pairwise_subtree hlinked id).imp ?_)
    intro a b hab heq
    exact hab 0 (congrArg some heq)
  case after_parent =>
    intro before m after hsplit
    exact after_parent_subtree hlinked hid hsplit
  case get?_eq =>
    intro x
    rw [hget]
    cases hm : t.get? x with
    | none => simp only [Option.map_none, ite_self]
    | some m =>
      simp only [mem_map_subtree_iff hlinked hid hm, Option.map_some]
      congr 2
      split
      · rfl
      next hne =>
        have hchild : id ∉ m.children := by
          rwa [hlinked.children_eq x m hm, mem_childrenIn_iff hlinked.keyed]
        rw [List.erase_of_not_mem hchild]
  case parent_ne =>
    intro x m hm r hr hparent
    rw [hget] at hm
    split at hm
    · cases hm
    next hx =>
      obtain ⟨old, hold, rfl⟩ := Option.map_eq_some_iff.mp hm
      obtain ⟨count, hup⟩ := isWithin_iff.mp ((mem_subtree_iff hlinked hid).mp hr).2
      refine hx (isWithin_iff.mpr ⟨count + 1, ?_⟩)
      rw [climb_succ, parentIn_of_get? hold, hparent, Option.bind_some, hup]
  case current_of_contains =>
    intro x hx hleft
    rcases hresolve with ⟨y, hy, -, heq⟩ | ⟨hnot, -⟩
    · rw [hcurrent, heq, ← hy, hx]
    · exact absurd hleft (hnot x hx)
  case current_of_not_contains =>
    intro hnot hne
    rcases hresolve with ⟨y, hy, hleft, -⟩ | ⟨-, ⟨hempty, -⟩ | ⟨m, hlast, heq⟩⟩
    · exact absurd hleft (hnot y hy)
    · exact absurd hempty hne
    · exact ⟨m, hlast, hcurrent.trans heq⟩
  case current_eq_none_iff =>
    refine ⟨hwell.eq_empty_of_current, ?_⟩
    intro hempty
    refine Option.eq_none_iff_forall_ne_some.mpr ?_
    intro x hx
    have hmem := hwell.mem_of_current x hx
    rw [hempty] at hmem
    exact Std.ExtTreeMap.not_mem_empty hmem

/-- A question with two answers, of which one is followed up twice and selected there, and a message that waits for
its parent. -/
def forked : Tree :=
  ofMessages
    [Message.ask "question" "a" 1, { Message.ask "answer" "b" 2 with parent := some "a" },
      { Message.ask "follow-up" "c" 7 with parent := some "b" },
      { Message.ask "other follow-up" "d" 4 with parent := some "b" },
      { Message.ask "other answer" "e" 5 with parent := some "a" },
      { Message.ask "waiting" "f" 3 with parent := some "x" }] (some "c")

/-- With the first answer both follow-ups are taken out, and the other answer is selected. -/
theorem takesOut_forked : TakesOut forked "b" (forked.subtree "b") (forked.remove "b") ∧
    (forked.subtree "b").map Message.id = ["b", "d", "c"] ∧
    (forked.remove "b").messages.keys = ["a", "e", "f"] ∧ (forked.remove "b").current = some "e" :=
  ⟨takesOut_remove (Reachable.ofMessages _ _) (by decide +kernel), by decide +kernel, by decide +kernel,
    by decide +kernel⟩

end DialogueSync.Tree
