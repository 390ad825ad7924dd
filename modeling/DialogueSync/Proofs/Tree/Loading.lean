import DialogueSync.Proofs.Tree.Heads
import DialogueSync.Proofs.Tree.WellFormed

/-!
# Loading loose messages

Messages with different ids may name one another as parents in any way: in several circles, with ways that lead into
a circle, and with parents that are not among them. Every circle has exactly one first message
(`Circular.existsUnique_heads`), and building a tree takes away the parents of these messages and changes no other
parent (`Loads`). The order in which the messages come does not matter.
-/

namespace DialogueSync.Tree

variable {link : String → Option String} {ms : List Message} {id x : String} {m : Message}

/-! ### Loose messages -/

/-- The parent named by the message of a list that has the id. -/
def parentAmong (ms : List Message) (id : String) : Option String :=
  (ms.find? fun m => m.id = id).bind Message.parent

/-- If the ids of the messages are different, under each of them its message is collected. -/
lemma getElem?_collect_eq_some_iff (hids : (ms.map Message.id).Nodup) :
    (IdMap.collect Message.id ms)[id]? = some m ↔ m ∈ ms ∧ m.id = id := by
  constructor
  · exact IdMap.mem_of_getElem?_collect
  · rintro ⟨hm, rfl⟩
    refine IdMap.getElem?_collect_eq ?_
    intro n
    constructor
    · rintro ⟨hn, hid⟩
      rw [List.inj_on_of_nodup_map hids hn hm hid]
    · intro heq
      obtain rfl := Option.some.inj heq
      exact ⟨hm, rfl⟩

/-- The parents of collected messages are those that the messages name. -/
lemma parentIn_collect (hids : (ms.map Message.id).Nodup) :
    parentIn (IdMap.collect Message.id ms) = parentAmong ms := by
  funext id
  rw [parentIn, parentAmong]
  refine congrArg (Option.bind · Message.parent) ?_
  cases hfind : ms.find? fun m => m.id = id with
  | some m =>
    have hid : m.id = id := by simpa using List.find?_some hfind
    exact (getElem?_collect_eq_some_iff hids).mpr ⟨List.mem_of_find?_eq_some hfind, hid⟩
  | none =>
    refine Option.eq_none_iff_forall_ne_some.mpr ?_
    intro m hm
    obtain ⟨hmem, hid⟩ := IdMap.mem_of_getElem?_collect hm
    have hne := List.find?_eq_none.mp hfind m hmem
    exact hne (decide_eq_true hid)

/-- Messages with different ids are collected in the same way in whatever order they come. -/
lemma collect_eq_of_perm {ms' : List Message} (hids : (ms.map Message.id).Nodup) (hperm : ms'.Perm ms) :
    IdMap.collect Message.id ms' = IdMap.collect Message.id ms := by
  have hids' : (ms'.map Message.id).Nodup := (hperm.map Message.id).nodup_iff.mpr hids
  refine Std.ExtTreeMap.ext_getElem? ?_
  intro id
  refine Option.ext ?_
  intro m
  rw [getElem?_collect_eq_some_iff hids, getElem?_collect_eq_some_iff hids', hperm.mem_iff]

/-! ### The first messages of circles -/

/-- From whatever is met on the way round a circle the way leads on to where it started. -/
lemma Circular.exists_climb_back (h : Circular link id) {count : Nat} (hup : climb link count id = some x) :
    ∃ n, climb link n x = some id := by
  induction count generalizing x with
  | zero =>
    obtain rfl := Option.some.inj hup
    exact ⟨0, rfl⟩
  | succ count ih =>
    rw [climb_add, Option.bind_eq_some_iff] at hup
    obtain ⟨y, hy, hlink⟩ := hup
    rw [climb_one] at hlink
    obtain ⟨n, hn⟩ := ih hy
    cases n with
    | zero =>
      obtain rfl := Option.some.inj hn
      obtain ⟨round, hround⟩ := h
      rw [climb_succ, hlink, Option.bind_some] at hround
      exact ⟨round, hround⟩
    | succ n =>
      rw [climb_succ, hlink, Option.bind_some] at hn
      exact ⟨n, hn⟩

/-- Two first ids of circles that are met on the way round one circle are the same. -/
lemma Heads.eq_of_climb {head head' : String} (h : Heads link head) (h' : Heads link head')
    (hcircular : Circular link id) {count count' : Nat} (hup : climb link count id = some head)
    (hup' : climb link count' id = some head') : head = head' := by
  have hround : ∀ {a b : String} {i j : Nat}, climb link i id = some a → climb link j id = some b →
      ∃ n, climb link n a = some b := by
    intro a b i j ha hb
    obtain ⟨n, hn⟩ := hcircular.exists_climb_back ha
    refine ⟨n + j, ?_⟩
    rw [climb_add, hn, Option.bind_some, hb]
  obtain ⟨n, hn⟩ := hround hup hup'
  obtain ⟨n', hn'⟩ := hround hup' hup
  cases hcompare : compare head head' with
  | lt => exact absurd hcompare (h'.2 n' head hn')
  | eq => exact Std.compare_eq_iff_eq.mp hcompare
  | gt => exact absurd (Std.OrientedCmp.lt_of_gt hcompare) (h.2 n head' hn)

/-- Every circle of parent links has exactly one first message. -/
lemma Circular.existsUnique_heads {ms : IdMap Message} (h : Circular (parentIn ms) id) :
    ∃! head, Heads (parentIn ms) head ∧ ∃ count, climb (parentIn ms) count id = some head := by
  obtain ⟨head, hheads, count, hup⟩ :
      ∃ head, Heads (parentIn ms) head ∧ ∃ count, climb (parentIn ms) count id = some head := by
    by_contra hnone
    -- A circle without a first message would be left when the circles are cut.
    have hsame : ∀ count x, climb (parentIn ms) count id = some x →
        parentIn (cutCycles ms) x = parentIn ms x := by
      intro count x hup
      have hnot : ¬ Heads (parentIn ms) x := fun hheads => hnone ⟨x, hheads, count, hup⟩
      rw [parentIn, parentIn, getElem?_cutCycles_of_not_heads hnot]
    obtain ⟨n, hn⟩ := h
    exact not_circular_cutCycles ms id ⟨n, (climb_congr hsame (n + 1)).trans hn⟩
  refine ⟨head, ⟨hheads, count, hup⟩, ?_⟩
  rintro head' ⟨hheads', count', hup'⟩
  exact hheads'.eq_of_climb hheads h hup' hup

/-! ### Loading -/

/-- A tree holds loose messages, of which the first one of each circle has lost its parent. -/
structure Loads (ms : List Message) (t : Tree) : Prop where
  /-- The tree has the ids of the messages. -/
  contains_iff : ∀ id, t.contains id ↔ ∃ m ∈ ms, m.id = id
  /-- The first message of a circle loses its parent, and nothing else but its list of children changes. -/
  cut : ∀ m ∈ ms, Heads (parentAmong ms) m.id →
    ∃ children, t.get? m.id = some { m with parent := none, children := children }
  /-- Of every other message nothing but the list of children changes. -/
  kept : ∀ m ∈ ms, ¬ Heads (parentAmong ms) m.id →
    ∃ children, t.get? m.id = some { m with children := children }
  /-- Every circle has exactly one first message. -/
  existsUnique_heads : ∀ id, Circular (parentAmong ms) id →
    ∃! head, Heads (parentAmong ms) head ∧ ∃ count, climb (parentAmong ms) count id = some head
  /-- No way up comes back to where it started. -/
  acyclic : ∀ id, ¬ Circular (parentIn t.messages) id

/-- Messages with different ids make the same tree in whatever order they come, and the tree holds all of them, cut at
the first message of each circle and nowhere else. -/
theorem loads_ofMessages (hids : (ms.map Message.id).Nodup) (current : Option String) :
    (∀ ms', ms'.Perm ms → ofMessages ms' current = ofMessages ms current) ∧ Loads ms (ofMessages ms current) := by
  have hlink := parentIn_collect hids
  -- Relinking changes the children only, so the rest of a message is as cutting has left it.
  have hget : ∀ m cut : Message, (cutCycles (IdMap.collect Message.id ms))[m.id]? = some cut →
      ∃ children, (ofMessages ms current).get? m.id = some { cut with children := children } := by
    intro m cut hcut
    refine ⟨childrenIn (cutCycles (IdMap.collect Message.id ms)) m.id, ?_⟩
    change (relinkAll (cutCycles (IdMap.collect Message.id ms)))[m.id]? = _
    rw [getElem?_relinkAll, hcut]
    rfl
  have hfound : ∀ {m}, m ∈ ms → (IdMap.collect Message.id ms)[m.id]? = some m := by
    intro m hm
    exact (getElem?_collect_eq_some_iff hids).mpr ⟨hm, rfl⟩
  refine ⟨?_, ?_⟩
  · intro ms' hperm
    rw [ofMessages, collect_eq_of_perm hids hperm, ofMessages]
  constructor
  case contains_iff =>
    intro id
    exact mem_ofIdMap_iff.trans IdMap.mem_collect
  case cut =>
    intro m hm hheads
    rw [← hlink] at hheads
    refine hget m { m with parent := none } ?_
    rw [getElem?_cutCycles_of_heads hheads, hfound hm]
    rfl
  case kept =>
    intro m hm hnot
    rw [← hlink] at hnot
    refine hget m m ?_
    rw [getElem?_cutCycles_of_not_heads hnot, hfound hm]
  case existsUnique_heads =>
    intro id hcircular
    rw [← hlink] at hcircular ⊢
    exact hcircular.existsUnique_heads
  case acyclic =>
    intro id
    rw [ofMessages, parentIn_ofIdMap]
    exact not_circular_cutCycles _ id

/-- Two circles, one of them of a single message, a way that leads into the other one, and a message that waits for its
parent. -/
def tangled : List Message :=
  [{ Message.ask "second" "c" 1 with parent := some "b" }, { Message.ask "third" "d" 2 with parent := some "c" },
    { Message.ask "first" "b" 3 with parent := some "d" }, { Message.ask "before" "a" 4 with parent := some "d" },
    { Message.ask "alone" "e" 5 with parent := some "e" }, { Message.ask "waiting" "f" 6 with parent := some "x" }]

/-- Loading these messages cuts the two circles at "b" and "e". -/
theorem loads_tangled :
    ofMessages tangled.reverse none = ofMessages tangled none ∧ Loads tangled (ofMessages tangled none) ∧
      (ofMessages tangled none).messages.values.map Message.parent =
        [some "d", none, some "b", some "c", none, some "x"] := by
  have hids : (tangled.map Message.id).Nodup := by decide +kernel
  obtain ⟨hperm, hloads⟩ := loads_ofMessages hids none
  exact ⟨hperm tangled.reverse (List.reverse_perm tangled), hloads, by decide +kernel⟩

end DialogueSync.Tree
