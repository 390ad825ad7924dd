import DialogueSync.Proofs.Server.Validation
import Mathlib.Logic.Relation

/-!
# Which histories are admitted

A history is `Admissible` if every message stands under its own id, no id is blank, the selected message is there, and
no message descends from itself along parent links within the history. A parent that is not in the history is no such
link, so it may be named.

The server finds out about the links from a tree, in which it cuts them wherever they come back to where they started.
Exactly the admissible histories are accepted all the same; and whatever a history is refused for is the case
(`HistoryFault.Holds`).
-/

namespace DialogueSync.Server

open DialogueSync.Tree (Circular climb parentIn)

variable {h : History} {fault : HistoryFault} {id ancestor : String}

/-! ### Descent -/

/-- A message names another one as its parent, and that one is in the history. -/
def NamesParent (h : History) (child parent : String) : Prop :=
  parent ∈ h.messages ∧ ∃ m : Message, h.messages[child]? = some m ∧ m.parent = some parent

/-- Parent links within the history lead up from one message to another. -/
def DescendsFrom (h : History) : String → String → Prop :=
  Relation.TransGen (NamesParent h)

/-- A message names its parent in a history exactly if the parent is in it. -/
lemma namesParent_iff {child parent : String} :
    NamesParent h child parent ↔ parent ∈ h.messages ∧ parentIn h.messages child = some parent := by
  rw [NamesParent, parentIn, Option.bind_eq_some_iff]

/-- An ancestor is some steps up. -/
lemma DescendsFrom.exists_climb (hdescends : DescendsFrom h id ancestor) :
    ∃ count, climb (parentIn h.messages) (count + 1) id = some ancestor := by
  induction hdescends using Relation.TransGen.head_induction_on with
  | single hlink => exact ⟨0, (Tree.climb_one _).trans (namesParent_iff.mp hlink).2⟩
  | head hlink _ ih =>
    obtain ⟨count, hup⟩ := ih
    exact ⟨count + 1, by rw [Tree.climb_succ, (namesParent_iff.mp hlink).2, Option.bind_some, hup]⟩

/-- A way up that ends in the history stays in it. -/
lemma descendsFrom_of_climb (hmem : ancestor ∈ h.messages) {count : Nat}
    (hup : climb (parentIn h.messages) (count + 1) id = some ancestor) : DescendsFrom h id ancestor := by
  induction count generalizing id with
  | zero =>
    rw [Tree.climb_one] at hup
    exact .single (namesParent_iff.mpr ⟨hmem, hup⟩)
  | succ count ih =>
    rw [Tree.climb_succ, Option.bind_eq_some_iff] at hup
    obtain ⟨parent, hp, hup⟩ := hup
    have hparent : parent ∈ h.messages := by
      obtain ⟨next, hnext, -⟩ := Option.bind_eq_some_iff.mp hup
      exact Tree.mem_of_parentIn_eq hnext
    exact .head (namesParent_iff.mpr ⟨hparent, hp⟩) (ih hup)

/-- The way up from a message comes back to it exactly if the message descends from itself. -/
lemma circular_iff_descendsFrom : Circular (parentIn h.messages) id ↔ DescendsFrom h id id := by
  constructor
  · rintro ⟨count, hup⟩
    obtain ⟨parent, hp, -⟩ := Option.bind_eq_some_iff.mp hup
    exact descendsFrom_of_climb (Tree.mem_of_parentIn_eq hp) hup
  · exact DescendsFrom.exists_climb

/-! ### Accepting -/

/-- A history that contradicts itself nowhere. -/
structure Admissible (h : History) : Prop where
  /-- Every message stands under its own id. -/
  key_eq : ∀ (key : String) (m : Message), h.messages[key]? = some m → key = m.id
  /-- No id is blank. -/
  exists_not_isSpace : ∀ (key : String) (m : Message), h.messages[key]? = some m →
    ∃ c ∈ m.id.toList, Text.isSpace c = false
  /-- The selected message is there. -/
  mem_of_current : ∀ id, h.current = some id → id ∈ h.messages
  /-- No message descends from itself. -/
  not_descendsFrom_self : ∀ (key : String) (m : Message), h.messages[key]? = some m → ¬ DescendsFrom h m.id m.id

lemma not_isBlank_iff {s : String} : ¬ Text.isBlank s ↔ ∃ c ∈ s.toList, Text.isSpace c = false := by
  simp [Text.isBlank]

/-- What the server checks is that the history is admissible. -/
lemma valid_iff_admissible : Valid h ↔ Admissible h := by
  constructor
  · intro hvalid
    constructor
    case key_eq => exact fun key m hm => (hvalid.keyed key m hm).symm
    case exists_not_isSpace =>
      intro key m hm
      rw [← not_isBlank_iff, hvalid.keyed key m hm]
      exact hvalid.not_blank key (mem_iff_exists_getElem?.mpr ⟨m, hm⟩)
    case mem_of_current => exact hvalid.mem_of_current
    case not_descendsFrom_self =>
      exact fun _ m _ hdescends => hvalid.acyclic m.id (circular_iff_descendsFrom.mpr hdescends)
  · intro hadmissible
    have hkeyed : IdMap.Keyed Message.id h.messages := fun key m hm => (hadmissible.key_eq key m hm).symm
    constructor
    case keyed => exact hkeyed
    case not_blank =>
      intro id hid
      obtain ⟨m, hm⟩ := mem_iff_exists_getElem?.mp hid
      rw [← hkeyed id m hm]
      exact not_isBlank_iff.mpr (hadmissible.exists_not_isSpace id m hm)
    case mem_of_current => exact hadmissible.mem_of_current
    case acyclic =>
      intro id hcircular
      obtain ⟨count, hup⟩ := hcircular
      obtain ⟨parent, hp, -⟩ := Option.bind_eq_some_iff.mp hup
      obtain ⟨m, hm⟩ := mem_iff_exists_getElem?.mp (Tree.mem_of_parentIn_eq hp)
      obtain rfl : m.id = id := hkeyed id m hm
      exact hadmissible.not_descendsFrom_self m.id m hm (circular_iff_descendsFrom.mp ⟨count, hup⟩)

/-! ### Refusing -/

/-- What a fault says of a history is the case. -/
def HistoryFault.Holds (h : History) : HistoryFault → Prop
  | blankId => ∃ (key : String) (m : Message), h.messages[key]? = some m ∧ ∀ c ∈ m.id.toList, Text.isSpace c = true
  | misplaced key id => ∃ m : Message, h.messages[key]? = some m ∧ m.id = id ∧ key ≠ id
  | danglingCurrent id => h.current = some id ∧ id ∉ h.messages
  | cycle id => DescendsFrom h id id

/-- The fault found in a message is one that the history has. -/
lemma holds_of_messageFault {key : String} {m : Message} (hm : h.messages[key]? = some m)
    (hfault : messageFault key m = some fault) : fault.Holds h := by
  unfold messageFault at hfault
  split at hfault
  next hblank =>
    obtain rfl := Option.some.inj hfault
    exact ⟨key, m, hm, List.all_eq_true.mp hblank⟩
  next =>
    split at hfault
    next hne =>
      obtain rfl := Option.some.inj hfault
      exact ⟨m, hm, rfl, hne⟩
    next => cases hfault

lemma holds_of_currentFault (hfault : currentFault h = some fault) : fault.Holds h := by
  unfold currentFault at hfault
  split at hfault
  next id hid =>
    split at hfault
    next => cases hfault
    next hnot =>
      obtain rfl := Option.some.inj hfault
      exact ⟨hid, hnot⟩
  next => cases hfault

/-- A message whose link was cut descends from itself. -/
lemma holds_of_cycleFault (hkeyed : IdMap.Keyed Message.id h.messages) (hfault : cycleFault h = some fault) :
    fault.Holds h := by
  obtain ⟨m, hm, rfl⟩ := Option.map_eq_some_iff.mp hfault
  have hfound := List.find?_some hm
  have hcut : parentIn (Tree.ofHistory h).messages m.id ≠ m.parent := of_decide_eq_true hfound
  obtain ⟨id, hid⟩ := mem_values_iff.mp (List.mem_of_find?_eq_some hm)
  obtain rfl : m.id = id := hkeyed id m hid
  rw [messages_ofHistory hkeyed, Tree.parentIn_relinkAll] at hcut
  rcases Tree.isCutOf_cutCycles h.messages m.id with hsame | ⟨hcircular, -⟩
  · rw [parentIn, hsame, hid, Option.bind_some] at hcut
    exact absurd rfl hcut
  · exact circular_iff_descendsFrom.mp hcircular

/-- A history has every fault that is found in it. -/
lemma holds_of_fault? (hfault : fault? h = some fault) : fault.Holds h := by
  rcases Option.or_eq_some_iff.mp hfault with hfault | ⟨hnone, hfault⟩
  · rcases Option.or_eq_some_iff.mp hfault with hfault | ⟨-, hfault⟩
    · obtain ⟨⟨key, m⟩, he, hfault⟩ := List.exists_of_findSome?_eq_some hfault
      exact holds_of_messageFault (Std.ExtTreeMap.mem_toList_iff_getElem?_eq_some.mp he) hfault
    · exact holds_of_currentFault hfault
  · exact holds_of_cycleFault (messageFaults_eq_none_iff.mp (Option.or_eq_none_iff.mp hnone).1).1 hfault

/-- Of all requests, exactly those with an admissible history are accepted, and any other one is refused for something
that is the case. -/
theorem validate_admits_exactly (request : SaveRequest) :
    (validate request.history = .ok () ↔ Admissible request.history) ∧
      ∀ e, validate request.history = .error e →
        e.isRefusal = true ∧ ∃ fault : HistoryFault, e = fault.failure ∧ fault.Holds request.history := by
  refine ⟨validate_eq_ok_iff.trans valid_iff_admissible, ?_⟩
  intro e hrefused
  refine ⟨(isRefusal_of_validate hrefused).1, ?_⟩
  unfold validate at hrefused
  split at hrefused
  next fault hfault => exact ⟨fault, (Except.error.inj hrefused).symm, holds_of_fault? hfault⟩
  next => cases hrefused

/-- A message may wait for its parent, but not lead into a circle. -/
example :
    let waiting := { Message.ask "waiting" "d" 1 with parent := some "x" }
    let circle := [{ Message.ask "first" "a" 1 with parent := some "b" },
      { Message.ask "second" "b" 1 with parent := some "a" }, { Message.ask "tail" "c" 1 with parent := some "b" }]
    fault? ⟨IdMap.collect Message.id [waiting], none⟩ = none ∧
      fault? ⟨IdMap.collect Message.id (waiting :: circle), some "d"⟩ = some (.cycle "a") := by
  decide +kernel

end DialogueSync.Server
