import DialogueSync.Proofs.IdMap
import DialogueSync.Tree.Links
import Mathlib.Data.List.Nodup
import Mathlib.Data.Nat.Find

/-!
# Ways up and circles

Following parent links, for any assignment of parents to ids. `climb` follows a number of links, and an id
is `Circular` if following some of its links leads back to it.

The walks of a tree are bounded by its size, which is enough: `exists_short_climb` finds a way up without
repetitions, and `isWithin_iff` and `isOnCycle_iff` say what the walks find out without a bound. Where there is no
circle, every way up ends within as many links as there are messages (`climb_size_succ`).
-/

namespace DialogueSync.Tree

/-! ### Following links -/

/-- The id reached from `id` by following `count` links. -/
def climb (link : String → Option String) : Nat → String → Option String
  | 0, id => some id
  | count + 1, id => (link id).bind (climb link count)

/-- Following the links from `id` leads back to it. -/
def Circular (link : String → Option String) (id : String) : Prop :=
  ∃ count, climb link (count + 1) id = some id

variable {link link' : String → Option String}

lemma climb_succ (count : Nat) (id : String) :
    climb link (count + 1) id = (link id).bind (climb link count) :=
  rfl

/-- One step up is to the parent. -/
lemma climb_one (id : String) : climb link 1 id = link id :=
  Option.bind_fun_some (link id)

/-- Ways up can be put together. -/
lemma climb_add (m n : Nat) (id : String) :
    climb link (m + n) id = (climb link m id).bind (climb link n) := by
  induction m generalizing id with
  | zero => rw [Nat.zero_add, climb, Option.bind_some]
  | succ m ih =>
    rw [Nat.succ_add, climb_succ, climb_succ, Option.bind_assoc]
    exact congrArg _ (funext ih)

/-- With fewer links, a way up that is left is one that was there. -/
lemma climb_mono (h : ∀ id parent, link' id = some parent → link id = some parent) {count : Nat}
    {id top : String} (hc : climb link' count id = some top) : climb link count id = some top := by
  induction count generalizing id with
  | zero => exact hc
  | succ count ih =>
    rw [climb_succ, Option.bind_eq_some_iff] at hc ⊢
    obtain ⟨parent, hp, hup⟩ := hc
    exact ⟨parent, h id parent hp, ih hup⟩

/-- With fewer links, a circle that is left is one that was there. -/
lemma Circular.mono (h : ∀ id parent, link' id = some parent → link id = some parent) {id : String}
    (hc : Circular link' id) : Circular link id :=
  hc.imp fun _ hcount => climb_mono h hcount

/-- An id without a link is on no circle. -/
lemma not_circular_of_link_eq_none {id : String} (h : link id = none) : ¬ Circular link id := by
  rintro ⟨count, hcount⟩
  rw [climb_succ, h] at hcount
  cases hcount

/-- On a way up that is as short as possible no id comes twice. -/
lemma nodup_climb {count : Nat} {id top : String} (hc : climb link count id = some top)
    (hmin : ∀ n < count, climb link n id ≠ some top) :
    ((List.range (count + 1)).map fun n => climb link n id).Nodup := by
  -- Two equal places on the way would leave out what is between them.
  have hne : ∀ i j, i < j → j ≤ count → climb link i id ≠ climb link j id := by
    intro i j hij hj heq
    refine hmin (i + (count - j)) (by omega) ?_
    rw [climb_add, heq, ← climb_add, Nat.add_sub_cancel' hj, hc]
  refine List.Nodup.map_on (fun i hi j hj heq => ?_) List.nodup_range
  rw [List.mem_range] at hi hj
  rcases Nat.lt_trichotomy i j with hlt | rfl | hgt
  · exact absurd heq (hne i j hlt (by omega))
  · rfl
  · exact absurd heq.symm (hne j i hgt (by omega))

/-- If only the ids of a list have links, what can be reached is reached along no more links than the list
has members, and along fewer if it is itself in the list. -/
lemma exists_short_climb {ids : List String} (hids : ∀ id, (link id).isSome → id ∈ ids) {count : Nat}
    {id top : String} (hc : climb link count id = some top) :
    ∃ n, climb link n id = some top ∧ n ≤ ids.length ∧ (top ∈ ids → n < ids.length) := by
  have hex : ∃ n, climb link n id = some top := ⟨count, hc⟩
  let n := Nat.find hex
  have hn : climb link n id = some top := Nat.find_spec hex
  have hnodup := nodup_climb hn fun m hm => Nat.find_min hex hm
  -- All places before the last one have a link.
  have hway : ∀ i < n, climb link i id ∈ ids.map some := by
    intro i hi
    have hsplit : climb link (i + (n - i)) id = some top := by rw [Nat.add_sub_cancel' (Nat.le_of_lt hi), hn]
    rw [climb_add, Option.bind_eq_some_iff] at hsplit
    obtain ⟨y, hy, hup⟩ := hsplit
    obtain ⟨rest, hrest⟩ : ∃ rest, n - i = rest + 1 := ⟨n - i - 1, by omega⟩
    rw [hrest, climb_succ, Option.bind_eq_some_iff] at hup
    obtain ⟨parent, hparent, -⟩ := hup
    rw [hy]
    exact List.mem_map_of_mem (hids y (by rw [hparent]; rfl))
  refine ⟨n, hn, ?_, fun htop => ?_⟩
  · have hsub : ((List.range n).map fun i => climb link i id).Nodup := by
      rw [List.range_succ, List.map_append] at hnodup
      exact (List.nodup_append.mp hnodup).1
    have hsubset : ((List.range n).map fun i => climb link i id) ⊆ ids.map some := by
      intro y hy
      obtain ⟨i, hi, rfl⟩ := List.mem_map.mp hy
      exact hway i (List.mem_range.mp hi)
    have hlength := (List.subperm_of_subset hsub hsubset).length_le
    rwa [List.length_map, List.length_range, List.length_map] at hlength
  · have hsubset : ((List.range (n + 1)).map fun i => climb link i id) ⊆ ids.map some := by
      intro y hy
      obtain ⟨i, hi, rfl⟩ := List.mem_map.mp hy
      rcases Nat.lt_or_eq_of_le (Nat.lt_succ_iff.mp (List.mem_range.mp hi)) with hlt | rfl
      · exact hway i hlt
      · rw [hn]
        exact List.mem_map_of_mem htop
    have hlength := (List.subperm_of_subset hnodup hsubset).length_le
    rwa [List.length_map, List.length_range, List.length_map] at hlength

/-- Where there is no circle, an id is met at one place of a way up only. -/
lemma eq_of_climb (hacyclic : ∀ id, ¬ Circular link id) {m n : Nat} {id top : String}
    (hm : climb link m id = some top) (hn : climb link n id = some top) : m = n := by
  have hle : ∀ {i j}, climb link i id = some top → climb link j id = some top → j ≤ i := by
    intro i j hi hj
    by_contra hlt
    obtain ⟨rest, hrest⟩ : ∃ rest, i + (rest + 1) = j := ⟨j - i - 1, by omega⟩
    rw [← hrest, climb_add, hi, Option.bind_some] at hj
    exact hacyclic top ⟨rest, hj⟩
  exact Nat.le_antisymm (hle hn hm) (hle hm hn)

/-! ### The size of the tree -/

/-- Only messages that are there name a parent. -/
lemma mem_keys_of_parentIn {ms : IdMap Message} {id : String} (h : (parentIn ms id).isSome) :
    id ∈ ms.keys := by
  rw [Std.ExtTreeMap.mem_keys, mem_iff_exists_getElem?]
  obtain ⟨parent, hp⟩ := Option.isSome_iff_exists.mp h
  obtain ⟨m, hm, -⟩ := Option.bind_eq_some_iff.mp hp
  exact ⟨m, hm⟩

/-- A message that names a parent is there. -/
lemma mem_of_parentIn_eq {ms : IdMap Message} {id parent : String} (h : parentIn ms id = some parent) : id ∈ ms :=
  Std.ExtTreeMap.mem_keys.mp (mem_keys_of_parentIn (Option.isSome_of_eq_some h))

/-- What can be reached is reached along no more links than there are messages, and along fewer if it is one of
them. -/
lemma exists_climb_le_size {ms : IdMap Message} {count : Nat} {id top : String}
    (hup : climb (parentIn ms) count id = some top) :
    ∃ n, climb (parentIn ms) n id = some top ∧ n ≤ ms.size ∧ (top ∈ ms → n < ms.size) := by
  have hshort := exists_short_climb (fun _ => mem_keys_of_parentIn) hup
  simpa only [Std.ExtTreeMap.length_keys, Std.ExtTreeMap.mem_keys] using hshort

/-- Where there is no circle, a message is reached along fewer links than there are messages. -/
lemma lt_size_of_climb {ms : IdMap Message} (hacyclic : ∀ id, ¬ Circular (parentIn ms) id) {count : Nat}
    {id top : String} (hup : climb (parentIn ms) count id = some top) (htop : top ∈ ms) : count < ms.size := by
  obtain ⟨n, hn, -, hlt⟩ := exists_climb_le_size hup
  rw [eq_of_climb hacyclic hup hn]
  exact hlt htop

/-- Where there is no circle, every way up ends within as many links as there are messages. -/
lemma climb_size_succ {ms : IdMap Message} (hacyclic : ∀ id, ¬ Circular (parentIn ms) id) (id : String) :
    climb (parentIn ms) (ms.size + 1) id = none := by
  refine Option.eq_none_iff_forall_ne_some.mpr ?_
  intro top htop
  obtain ⟨n, hn, hle, -⟩ := exists_climb_le_size htop
  rw [eq_of_climb hacyclic hn htop] at hle
  exact Nat.not_succ_le_self ms.size hle

/-! ### The walks of the tree -/

/-- An id is met on the way up if it is reached in fewer steps than may be taken. -/
lemma mem_lineage_iff {ms : IdMap Message} {count : Nat} {id x : String} :
    x ∈ lineage ms count id ↔ ∃ n < count, climb (parentIn ms) n id = some x := by
  induction count generalizing id with
  | zero => simp [lineage]
  | succ count ih =>
    rw [lineage]
    constructor
    · intro hx
      split at hx
      next parent hp =>
        rcases List.mem_cons.mp hx with rfl | hx
        · exact ⟨0, Nat.succ_pos _, rfl⟩
        · obtain ⟨n, hn, hup⟩ := ih.mp hx
          exact ⟨n + 1, Nat.succ_lt_succ hn, by rw [climb_succ, hp, Option.bind_some, hup]⟩
      next hp =>
        obtain rfl := List.mem_singleton.mp hx
        exact ⟨0, Nat.succ_pos _, rfl⟩
    · rintro ⟨n, hn, hup⟩
      cases n with
      | zero =>
        obtain rfl := Option.some.inj hup
        split <;> exact List.mem_cons_self
      | succ n =>
        rw [climb_succ, Option.bind_eq_some_iff] at hup
        obtain ⟨parent, hp, hup⟩ := hup
        rw [hp]
        exact List.mem_cons_of_mem _ (ih.mpr ⟨n, Nat.lt_of_succ_lt_succ hn, hup⟩)

/-- Looking at one message more adds what is reached by as many links. -/
lemma lineage_succ (ms : IdMap Message) (count : Nat) (id : String) :
    lineage ms (count + 1) id = lineage ms count id ++ (climb (parentIn ms) count id).toList := by
  induction count generalizing id with
  | zero =>
    cases hp : parentIn ms id <;> simp [lineage, climb, hp]
  | succ count ih =>
    rw [lineage, climb_succ]
    cases hp : parentIn ms id with
    | none => simp [lineage, hp]
    | some parent => simp [lineage, hp, ← ih]

/-- An id stands within another if some way up leads from it to that one. -/
lemma isWithin_iff {ms : IdMap Message} {id ancestor : String} :
    isWithin ms id ancestor ↔ ∃ n, climb (parentIn ms) n id = some ancestor := by
  rw [isWithin, List.contains_iff_mem, mem_lineage_iff]
  constructor
  · rintro ⟨n, -, hn⟩
    exact ⟨n, hn⟩
  · rintro ⟨n, hn⟩
    obtain ⟨m, hm, hle, -⟩ := exists_climb_le_size hn
    exact ⟨m, Nat.lt_succ_of_le hle, hm⟩

/-- The way up from a message comes back to it exactly if it lies on a circle. -/
lemma isOnCycle_iff {ms : IdMap Message} {id : String} :
    isOnCycle ms id ↔ Circular (parentIn ms) id := by
  unfold isOnCycle
  split
  next parent hp =>
    rw [List.contains_iff_mem, mem_lineage_iff]
    constructor
    · rintro ⟨n, -, hn⟩
      exact ⟨n, by rw [climb_succ, hp, Option.bind_some, hn]⟩
    · rintro ⟨n, hn⟩
      rw [climb_succ, hp, Option.bind_some] at hn
      obtain ⟨m, hm, -, hlt⟩ := exists_climb_le_size hn
      exact ⟨m, hlt (mem_of_parentIn_eq hp), hm⟩
  next hp => simpa using not_circular_of_link_eq_none hp

end DialogueSync.Tree
