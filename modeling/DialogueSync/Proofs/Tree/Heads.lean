import DialogueSync.Proofs.Tree.Cycles
import Mathlib.Data.List.Induction

/-!
# Where circles are cut

No two circles of parent links share an id, since every message has one parent at most. Circles are cut in the
order of the ids, so each of them is cut exactly once, at its first id (`Heads`). This says what cutting does
to every message (`getElem?_cutCycles`), not only that it takes away nothing but links on circles.
-/

namespace DialogueSync.Tree

variable {link link' : String → Option String} {ms : IdMap Message} {id : String}

/-! ### Going round a circle -/

/-- The way up from an id on a circle never ends, and all that is met on it lies on circles. -/
lemma Circular.exists_climb (h : Circular link id) (count : Nat) :
    ∃ x, climb link count id = some x ∧ Circular link x := by
  induction count with
  | zero => exact ⟨id, rfl, h⟩
  | succ count ih =>
    obtain ⟨x, hx, n, hn⟩ := ih
    obtain ⟨y, hy, hback⟩ := Option.bind_eq_some_iff.mp ((climb_succ n x).symm.trans hn)
    refine ⟨y, ?_, n, ?_⟩
    · rw [climb_add, hx, Option.bind_some, climb_one, hy]
    · rw [climb_add, hback, Option.bind_some, climb_one, hy]

/-- The id is the first one of a circle. -/
def Heads (link : String → Option String) (id : String) : Prop :=
  Circular link id ∧ ∀ count x, climb link count id = some x → compare x id ≠ .lt

/-- Links that agree on the way up from an id lead the same way. -/
lemma climb_congr (h : ∀ count x, climb link count id = some x → link' x = link x) (count : Nat) :
    climb link' count id = climb link count id := by
  induction count with
  | zero => rfl
  | succ count ih =>
    rw [climb_add, climb_add, ih]
    cases hx : climb link count id with
    | none => rfl
    | some x =>
      rw [Option.bind_some, Option.bind_some, climb_succ, climb_succ, h count x hx]
      rfl

/-! ### Cutting in order -/

/-- The first ids of a sorted list are those before a member. -/
lemma mem_of_compare_lt {before after : List String}
    (hsorted : (before ++ id :: after).Pairwise fun a b => compare a b = .lt) {x : String}
    (hx : x ∈ before ++ id :: after) (hlt : compare x id = .lt) : x ∈ before := by
  rcases List.mem_append.mp hx with hx | hx
  · exact hx
  · exfalso
    rcases List.mem_cons.mp hx with rfl | hx
    · rw [Std.compare_eq_iff_eq.mpr rfl] at hlt
      cases hlt
    · have hpairs := (List.pairwise_append.mp hsorted).2.1
      have hgt := (List.pairwise_cons.mp hpairs).1 x hx
      exact Std.OrientedCmp.not_lt_of_lt hlt hgt

/-- Of the messages that are dealt with, those are cut that are the first of a circle, and no others. -/
structure CutAtHeads (ms : IdMap Message) (done : List String) (cut : IdMap Message) : Prop where
  /-- The first message of a circle is cut. -/
  cut_eq : ∀ id, id ∈ done → Heads (parentIn ms) id →
    cut[id]? = ms[id]?.map fun m => { m with parent := none }
  /-- No other message is touched. -/
  keep_eq : ∀ id, ¬ (id ∈ done ∧ Heads (parentIn ms) id) → cut[id]? = ms[id]?

/-- When the ids before an id are dealt with, it lies on a circle exactly if it is the first of one. -/
lemma circular_foldl_cutAt_iff {before after : List String} (hkeys : ms.keys = before ++ id :: after)
    (hcut : CutAtHeads ms before (before.foldl cutAt ms)) :
    Circular (parentIn (before.foldl cutAt ms)) id ↔ Heads (parentIn ms) id := by
  have hsorted : (before ++ id :: after).Pairwise fun a b => compare a b = .lt := by
    rw [← hkeys]
    exact Std.ExtTreeMap.ordered_keys
  have hless : ∀ x parent, parentIn (before.foldl cutAt ms) x = some parent →
      parentIn ms x = some parent := fun _ _ => (isCutOf_foldl_cutAt before ms).parentIn_eq
  constructor
  · intro hcircular
    refine ⟨hcircular.mono hless, fun count x hx hlt => ?_⟩
    -- What is met on the circle is still on one, so it is not among the ids before.
    obtain ⟨y, hy, hycircular⟩ := hcircular.exists_climb count
    obtain rfl := Option.some.inj ((climb_mono hless hy).symm.trans hx)
    have hkey : y ∈ ms.keys := by
      obtain ⟨z, hz, -⟩ := (hycircular.mono hless).exists_climb 1
      refine mem_keys_of_parentIn (Option.isSome_iff_ne_none.mpr fun hnone => ?_)
      rw [climb_succ, hnone] at hz
      cases hz
    have hbefore : y ∈ before := mem_of_compare_lt hsorted (hkeys ▸ hkey) hlt
    exact not_circular_foldl_cutAt hbefore ms hycircular
  · rintro ⟨⟨n, hn⟩, hfirst⟩
    refine ⟨n, (climb_congr (fun count x hx => ?_) (n + 1)).trans hn⟩
    have hnot : x ∉ before := by
      intro hmem
      have hlt := (List.pairwise_append.mp hsorted).2.2 x hmem id List.mem_cons_self
      exact hfirst count x hx hlt
    rw [parentIn, parentIn, hcut.keep_eq x fun h => hnot h.1]

/-- To cut a message touches no other one. -/
lemma getElem?_cutAt_of_ne (ms : IdMap Message) {x : String} (h : x ≠ id) :
    (cutAt ms id)[x]? = ms[x]? := by
  unfold cutAt
  split
  · rw [Std.ExtTreeMap.getElem?_modify, if_neg fun heq => h (Std.LawfulEqOrd.eq_of_compare heq).symm]
  · rfl

/-- Dealing with the first ids in order cuts those of them that are the first of a circle. -/
lemma cutAtHeads_foldl_cutAt {before after : List String} (hkeys : ms.keys = before ++ after) :
    CutAtHeads ms before (before.foldl cutAt ms) := by
  induction before using List.reverseRecOn generalizing after with
  | nil => exact ⟨fun _ hid => absurd hid List.not_mem_nil, fun _ _ => rfl⟩
  | append_singleton before last ih =>
    rw [List.append_assoc] at hkeys
    have hbefore := ih hkeys
    have hcircular := circular_foldl_cutAt_iff hkeys hbefore
    have hnodup : (before ++ last :: after).Nodup := by
      rw [show before ++ last :: after = ms.keys from hkeys.symm]
      exact Std.ExtTreeMap.nodup_keys
    have hlast : last ∉ before := fun hmem =>
      (List.nodup_append.mp hnodup).2.2 last hmem last List.mem_cons_self rfl
    have hsame : (before.foldl cutAt ms)[last]? = ms[last]? := hbefore.keep_eq last fun h => hlast h.1
    rw [List.foldl_append, List.foldl_cons, List.foldl_nil]
    constructor
    · intro id hid hheads
      by_cases heq : id = last
      · subst heq
        rw [cutAt, if_pos (isOnCycle_iff.mpr (hcircular.mpr hheads)),
          Std.ExtTreeMap.getElem?_modify_self, hsame]
      · have hmem : id ∈ before := by simpa [heq] using hid
        rw [getElem?_cutAt_of_ne _ heq, hbefore.cut_eq id hmem hheads]
    · intro id hnot
      by_cases heq : id = last
      · subst heq
        have hheads : ¬ Heads (parentIn ms) id := fun h => hnot ⟨by simp, h⟩
        rw [cutAt, if_neg fun h => hheads (hcircular.mp (isOnCycle_iff.mp h)), hsame]
      · rw [getElem?_cutAt_of_ne _ heq]
        exact hbefore.keep_eq id fun h => hnot ⟨List.mem_append_left _ h.1, h.2⟩

/-! ### What cutting does -/

/-- A message loses its parent, and nothing else, if it is the first of a circle. -/
lemma getElem?_cutCycles_of_heads (h : Heads (parentIn ms) id) :
    (cutCycles ms)[id]? = ms[id]?.map fun m => { m with parent := none } := by
  have hlink : (parentIn ms id).isSome := by
    refine Option.isSome_iff_ne_none.mpr fun hnone => ?_
    exact not_circular_of_link_eq_none hnone h.1
  exact (cutAtHeads_foldl_cutAt (List.append_nil ms.keys).symm).cut_eq id (mem_keys_of_parentIn hlink) h

/-- The head of a circle loses its parent. -/
lemma parentIn_cutCycles_of_heads (h : Heads (parentIn ms) id) : parentIn (cutCycles ms) id = none := by
  rw [parentIn, getElem?_cutCycles_of_heads h]
  cases ms[id]? <;> rfl

/-- A message that is not the first of a circle stays as it is. -/
lemma getElem?_cutCycles_of_not_heads (h : ¬ Heads (parentIn ms) id) :
    (cutCycles ms)[id]? = ms[id]? :=
  (cutAtHeads_foldl_cutAt (List.append_nil ms.keys).symm).keep_eq id fun hid => h hid.2

/-- Taking the link away from the first id of each circle gives these parents. -/
def SettlesTo (link parent : String → Option String) : Prop :=
  ∀ id, Heads link id ∧ parent id = none ∨ ¬ Heads link id ∧ parent id = link id

/-- Cutting the circles settles the parent links, and in no other way. -/
lemma parentIn_cutCycles_eq_iff {parent : String → Option String} :
    parentIn (cutCycles ms) = parent ↔ SettlesTo (parentIn ms) parent := by
  have hnot : ∀ id, ¬ Heads (parentIn ms) id → parentIn (cutCycles ms) id = parentIn ms id := by
    intro id h
    rw [parentIn, parentIn, getElem?_cutCycles_of_not_heads h]
  constructor
  · rintro rfl id
    by_cases h : Heads (parentIn ms) id
    · exact Or.inl ⟨h, parentIn_cutCycles_of_heads h⟩
    · exact Or.inr ⟨h, hnot id h⟩
  · intro hsettles
    funext id
    rcases hsettles id with ⟨h, hparent⟩ | ⟨h, hparent⟩
    · rw [parentIn_cutCycles_of_heads h, hparent]
    · rw [hnot id h, hparent]

/-- Links without circles are settled. -/
lemma SettlesTo.of_acyclic (h : ∀ id, ¬ Circular link id) : SettlesTo link link :=
  fun id => Or.inr ⟨fun hheads => h id hheads.1, rfl⟩

end DialogueSync.Tree
